import Semindex.Parser.Asm

/-! The direct calls of an assembly source. A source is instructions, labels and
directives one behind the other, and the observer reads it token by token. -/
namespace Semindex.Parser.Asm

section Forms

def isCallWord (text : Text) : Bool := isDirectCallMnemonic text || text = jal || text = brasl

/-- The tokens of a register, none of which is a comma or can be taken for a mnemonic. -/
def isRegister (tokens : List Token) : Bool :=
  tokens ≠ [] && tokens.all (fun token => token.kind ≠ .comma && !(isIdentifier token && isCallWord token.text))

/-- What stands between the mnemonic and the target of a call. -/
def isLink (mnemonic : Text) (between : List Token) : Bool :=
  if isDirectCallMnemonic mnemonic then between = []
  else if mnemonic = jal then between = [] || (match between with
    | [register,comma] => isIdentifier register && isRegister [register] && comma.kind = .comma
    | _ => false)
  else if mnemonic = brasl then (match between.getLast? with
    | some comma => comma.kind = .comma && isRegister between.dropLast
    | none => false)
  else false

/-- The target of a direct call and what stands before it. -/
def callTarget (mnemonic : Token) (operands : List Token) : Option (List Token × Token) :=
  match operands.getLast? with
  | some target => if isIdentifier target && isLink mnemonic.text operands.dropLast then some (operands.dropLast,target) else none
  | none => none

inductive Item where
  | label (name colon : Token) (named : isIdentifier name) (closed : colon.kind = .colon)
  | directive (period name : Token) (arguments : List Token) (started : period.kind = .period) (named : isIdentifier name)
  | instruction (mnemonic : Token) (operands : List Token) (named : isIdentifier mnemonic)

def Item.tokens : Item → List Token
  | .label name colon _ _ => [name,colon]
  | .directive period name arguments _ _ => period::name::arguments
  | .instruction mnemonic operands _ => mnemonic::operands

/-- A direct call, or a token that belongs to none. -/
inductive Piece where
  | word (token : Token)
  | call (mnemonic : Token) (between : List Token) (target : Token)

def Piece.tokens : Piece → List Token
  | .word token => [token]
  | .call mnemonic between target => mnemonic::(between ++ [target])

def Piece.isCall : Piece → Bool
  | .word _ => false
  | .call .. => true

def Item.pieces : Item → List Piece
  | .instruction mnemonic operands _ =>
    match callTarget mnemonic operands with
    | some (between,target) => [.call mnemonic between target]
    | none => (mnemonic::operands).map .word
  | item => item.tokens.map .word

/-- The calls of the pieces, where the first token is the one with this order. -/
def callsOf : Nat → List Piece → List Call
  | _,[] => []
  | order,.word _::rest => callsOf (order+1) rest
  | order,.call _ between target::rest =>
    ⟨target.text,target.location,order + between.length + 1⟩::callsOf (order + between.length + 2) rest

def directCalls (items : List Item) : List Call := callsOf 0 (items.flatMap Item.pieces)

end Forms

section Condition

def CallObserver.run : CallObserver → Nat → List Token → CallObserver
  | o,_,[] => o
  | o,order,token::rest => (o.observeCall order token).run (order+1) rest

/-- In this state the observer reads the piece as what it is. Where `awaited` the
piece before is a call, whose target the observer may still hold. -/
def Reads (state : CallState) (awaited : Bool) : Piece → Prop
  | .word token =>
    match state with
    | .direct => isIdentifier token = false
    | .jalAfterFirst => awaited = true ↔ token.kind ≠ .comma
    | _ => True
  | .call _ between _ => state = .none ∨ (state = .skipToComma ∧ between ≠ [])

/-- Each piece is read as what it is, and so is the end of the file. -/
def Undisturbed : CallObserver → Bool → Nat → List Piece → Prop
  | o,awaited,_,[] => o.state = .jalAfterFirst → awaited = true
  | o,awaited,order,piece::rest =>
    Reads o.state awaited piece ∧
      Undisturbed (o.run order piece.tokens) piece.isCall (order + piece.tokens.length) rest

end Condition

section Heard
variable {o : CallObserver} {order : Nat} {token : Token} {tokens more : List Token}

-- the calls that a token completes
def CallObserver.heard (o : CallObserver) (order : Nat) (token : Token) : List Call :=
  match o.state with
  | .direct => if isIdentifier token then [⟨token.text,token.location,order⟩] else []
  | .jalAfterFirst => if token.kind = .comma then [] else [⟨o.jalTarget,o.jalLocation,o.jalOrder⟩]
  | _ => []

def CallObserver.heardAll : CallObserver → Nat → List Token → List Call
  | _,_,[] => []
  | o,order,token::rest => o.heard order token ++ (o.observeCall order token).heardAll (order+1) rest

theorem observeCall_calls (o : CallObserver) (order : Nat) (token : Token) :
    (o.observeCall order token).calls = o.calls ++ o.heard order token := by
  unfold CallObserver.observeCall CallObserver.heard CallObserver.addPendingCall
  cases state : o.state with
  | direct => cases named : isIdentifier token <;> simp
  | skipToComma => by_cases comma : token.kind = .comma <;> simp [comma]
  | jalFirst => cases named : isIdentifier token <;> simp
  | jalAfterFirst => by_cases comma : token.kind = .comma <;> simp [comma]
  | none =>
    dsimp only
    split_ifs <;> simp

theorem run_calls (o : CallObserver) (order : Nat) (tokens : List Token) :
    (o.run order tokens).calls = o.calls ++ o.heardAll order tokens := by
  induction tokens generalizing o order with
  | nil => exact (List.append_nil _).symm
  | cons token rest ih => rw [CallObserver.run,ih,observeCall_calls,CallObserver.heardAll,List.append_assoc]

theorem run_append (o : CallObserver) (order : Nat) (tokens more : List Token) :
    o.run order (tokens ++ more) = (o.run order tokens).run (order + tokens.length) more := by
  induction tokens generalizing o order with
  | nil => rfl
  | cons token rest ih =>
    rw [List.cons_append,CallObserver.run,ih,CallObserver.run,List.length_cons]
    congr 1
    omega

theorem heardAll_append (o : CallObserver) (order : Nat) (tokens more : List Token) :
    o.heardAll order (tokens ++ more) = o.heardAll order tokens ++ (o.run order tokens).heardAll (order + tokens.length) more := by
  induction tokens generalizing o order with
  | nil => rfl
  | cons token rest ih =>
    rw [List.cons_append,CallObserver.heardAll,ih,CallObserver.heardAll,CallObserver.run,List.length_cons,List.append_assoc]
    congr 3
    omega

/-- A target that is held back is the token before. -/
def Holds (o : CallObserver) (order : Nat) : Prop := o.state = .jalAfterFirst → o.jalOrder + 1 = order

theorem observeCall_holds (o : CallObserver) (order : Nat) (token : Token) : Holds (o.observeCall order token) (order+1) := by
  unfold Holds CallObserver.observeCall CallObserver.addPendingCall
  cases state : o.state with
  | direct => simp
  | skipToComma => by_cases comma : token.kind = .comma <;> simp [comma,state]
  | jalFirst => cases named : isIdentifier token <;> simp
  | jalAfterFirst => by_cases comma : token.kind = .comma <;> simp [comma]
  | none =>
    dsimp only
    split_ifs <;> simp [state]

theorem run_holds (holds : Holds o order) (tokens : List Token) : Holds (o.run order tokens) (order + tokens.length) := by
  induction tokens generalizing o order with
  | nil => exact holds
  | cons token rest ih =>
    have later := ih (observeCall_holds o order token)
    rw [Nat.add_right_comm] at later
    exact later

-- what is heard later stands later, but for the target that is held back
theorem heardAll_later {call : Call} (heard : call ∈ o.heardAll order tokens) :
    order ≤ call.order ∨ o.state = .jalAfterFirst ∧ call.order = o.jalOrder := by
  induction tokens generalizing o order with
  | nil => cases heard
  | cons token rest ih =>
    rcases List.mem_append.mp heard with now | later
    · unfold CallObserver.heard at now
      split at now
      · split at now
        · rw [List.mem_singleton.mp now]
          exact .inl (Nat.le_refl _)
        · cases now
      · rename_i state
        split at now
        · cases now
        · rw [List.mem_singleton.mp now]
          exact .inr ⟨state,rfl⟩
      · cases now
    · rcases ih later with after | ⟨state,same⟩
      · exact .inl (by omega)
      · have held := observeCall_holds o order token state
        exact .inl (by omega)

theorem heardAll_before {call : Call} (holds : Holds o order) (heard : call ∈ o.heardAll order tokens) :
    call.order < order + tokens.length := by
  induction tokens generalizing o order with
  | nil => cases heard
  | cons token rest ih =>
    rw [List.length_cons]
    rcases List.mem_append.mp heard with now | later
    · unfold CallObserver.heard at now
      split at now
      · split at now
        · rw [List.mem_singleton.mp now]
          dsimp only
          omega
        · cases now
      · rename_i state
        have before := holds state
        split at now
        · cases now
        · rw [List.mem_singleton.mp now]
          dsimp only
          omega
      · cases now
    · have before := ih (observeCall_holds o order token) later
      omega

end Heard

section Steps
variable {o : CallObserver} {order : Nat} {token mnemonic target comma : Token} {tokens register between : List Token}

theorem identifier_comma (named : isIdentifier token = true) : token.kind ≠ .comma := by
  intro comma
  simp [isIdentifier,comma] at named

theorem register_iff : isRegister register = true ↔ register ≠ [] ∧
    ∀ token ∈ register, token.kind ≠ .comma ∧ (isIdentifier token = true → isCallWord token.text = false) := by
  unfold isRegister
  simp only [Bool.and_eq_true,decide_eq_true_eq,List.all_eq_true]
  refine and_congr_right (fun _ => forall₂_congr (fun token _ => and_congr_right (fun _ => ?_)))
  cases isIdentifier token <;> cases isCallWord token.text <;> simp

theorem observe_word (state : o.state = .none) (plain : isIdentifier token = true → isCallWord token.text = false) :
    o.observeCall order token = o := by
  unfold CallObserver.observeCall
  rw [state]
  dsimp only
  cases named : isIdentifier token with
  | false => rfl
  | true =>
    have free := plain named
    simp only [isCallWord,Bool.or_eq_false_iff,decide_eq_false_iff_not] at free
    rw [if_neg (by simp),if_neg (by simp [free.1.1]),if_neg free.1.2,if_neg free.2]

-- what holds no mnemonic leaves an idle observer as it is
theorem run_plain (state : o.state = .none) (plain : ∀ token ∈ tokens, isIdentifier token = true → isCallWord token.text = false) :
    o.run order tokens = o ∧ o.heardAll order tokens = [] := by
  induction tokens generalizing order with
  | nil => exact ⟨rfl,rfl⟩
  | cons token rest ih =>
    have same := @observe_word o order token state (plain token List.mem_cons_self)
    obtain ⟨kept,silent⟩ := @ih (order+1) (fun token member => plain token (List.mem_cons_of_mem _ member))
    have heard : o.heard order token = [] := by simp [CallObserver.heard,state]
    exact ⟨by rw [CallObserver.run,same,kept],by rw [CallObserver.heardAll,same,silent,heard]; rfl⟩

theorem run_skipped (state : o.state = .skipToComma) (apart : ∀ token ∈ tokens, token.kind ≠ .comma) :
    o.run order tokens = o ∧ o.heardAll order tokens = [] := by
  induction tokens generalizing order with
  | nil => exact ⟨rfl,rfl⟩
  | cons token rest ih =>
    have same : o.observeCall order token = o := by
      unfold CallObserver.observeCall
      rw [state]
      exact if_neg (apart token List.mem_cons_self)
    obtain ⟨kept,silent⟩ := @ih (order+1) (fun token member => apart token (List.mem_cons_of_mem _ member))
    have heard : o.heard order token = [] := by simp [CallObserver.heard,state]
    exact ⟨by rw [CallObserver.run,same,kept],by rw [CallObserver.heardAll,same,silent,heard]; rfl⟩

/-- Behind the comma that is looked for, the target. -/
theorem run_link (state : o.state = .skipToComma) (apart : ∀ token ∈ tokens, token.kind ≠ .comma) (separator : comma.kind = .comma)
    (named : isIdentifier target = true) : (o.run order (tokens ++ [comma,target])).state = .none ∧
      o.heardAll order (tokens ++ [comma,target]) = [⟨target.text,target.location,order + tokens.length + 1⟩] := by
  obtain ⟨kept,silent⟩ := @run_skipped _ order _ state apart
  rw [run_append,heardAll_append,kept,silent]
  simp [CallObserver.run,CallObserver.heardAll,CallObserver.observeCall,CallObserver.heard,CallObserver.addPendingCall,
    state,separator,named]

/-- A call that is spelled as one. -/
structure Spelled (mnemonic : Token) (between : List Token) (target : Token) : Prop where
  named : isIdentifier mnemonic = true
  single : isIdentifier target = true
  link : isLink mnemonic.text between = true

theorem callTarget_spelled {operands : List Token} (named : isIdentifier mnemonic = true)
    (found : callTarget mnemonic operands = some (between,target)) :
    Spelled mnemonic between target ∧ operands = between ++ [target] := by
  unfold callTarget at found
  split at found
  · rename_i last ends
    split at found
    · rename_i accepted
      obtain ⟨rfl,rfl⟩ := Prod.mk.inj (Option.some.inj found)
      have both := Bool.and_eq_true_iff.mp accepted
      exact ⟨⟨named,both.1,both.2⟩,(List.dropLast_append_getLast? _ ends).symm⟩
    · cases found
  · cases found

/-- A direct call, the first operand of `jal`, or a link register before the target. -/
theorem spelled_cases (spelled : Spelled mnemonic between target) :
    (isDirectCallMnemonic mnemonic.text = true ∧ between = []) ∨ (mnemonic.text = jal ∧ between = []) ∨
      ∃ register comma, between = register ++ [comma] ∧ isRegister register = true ∧ comma.kind = .comma ∧
        ((mnemonic.text = jal ∧ ∃ token, register = [token] ∧ isIdentifier token = true) ∨ mnemonic.text = brasl) := by
  have link := spelled.link
  unfold isLink at link
  split at link
  · rename_i direct
    exact .inl ⟨direct,of_decide_eq_true link⟩
  · split at link
    · rename_i jump
      rcases (Bool.or_eq_true_iff.mp link) with empty | pair
      · exact .inr (.inl ⟨jump,of_decide_eq_true empty⟩)
      · split at pair
        · rename_i token comma
          simp only [Bool.and_eq_true,decide_eq_true_eq] at pair
          exact .inr (.inr ⟨[token],comma,rfl,pair.1.2,pair.2,.inl ⟨jump,token,rfl,pair.1.1⟩⟩)
        · cases pair
    · split at link
      · rename_i branch
        split at link
        · rename_i comma ends
          simp only [Bool.and_eq_true,decide_eq_true_eq] at link
          exact .inr (.inr ⟨between.dropLast,comma,(List.dropLast_append_getLast? _ ends).symm,link.2,link.1,.inr branch⟩)
        · cases link
      · cases link

theorem jal_indirect : isDirectCallMnemonic jal = false := by decide
theorem brasl_indirect : isDirectCallMnemonic brasl = false ∧ brasl ≠ jal := by decide

/-- The call whose target the observer holds back, if the piece before is a call. -/
def CallObserver.held (o : CallObserver) (awaited : Bool) : List Call :=
  if awaited = true ∧ o.state = .jalAfterFirst then [⟨o.jalTarget,o.jalLocation,o.jalOrder⟩] else []

theorem held_none (state : o.state ≠ .jalAfterFirst) (awaited : Bool) : o.held awaited = [] :=
  if_neg (fun both => state both.2)

theorem call_read (spelled : Spelled mnemonic between target)
    (state : o.state = .none ∨ (o.state = .skipToComma ∧ between ≠ [])) :
    o.heardAll order (mnemonic::(between ++ [target])) ++ (o.run order (mnemonic::(between ++ [target]))).held true =
      [⟨target.text,target.location,order + between.length + 1⟩] := by
  have named := spelled.named
  have single := spelled.single
  have linked (start : CallObserver) (register : List Token) (comma : Token) (skips : start.state = .skipToComma)
      (apart : isRegister register = true) (separator : comma.kind = .comma) (from' : Nat) :
      start.heardAll from' (register ++ [comma] ++ [target]) ++ (start.run from' (register ++ [comma] ++ [target])).held true =
        [⟨target.text,target.location,from' + register.length + 1⟩] := by
    rw [List.append_assoc]
    obtain ⟨last,heard⟩ := @run_link _ from' _ _ _ skips (fun token member => ((register_iff.mp apart).2 token member).1)
      separator single
    rw [List.singleton_append,heard,held_none (by rw [last]; simp),List.append_nil]
  rcases spelled_cases spelled with ⟨direct,rfl⟩ | ⟨jump,rfl⟩ | ⟨register,comma,rfl,apart,separator,kind⟩
  · obtain idle := state.resolve_right (fun skips => skips.2 rfl)
    simp [CallObserver.run,CallObserver.heardAll,CallObserver.observeCall,CallObserver.heard,CallObserver.addPendingCall,
      CallObserver.held,idle,named,direct,single]
  · obtain idle := state.resolve_right (fun skips => skips.2 rfl)
    simp [CallObserver.run,CallObserver.heardAll,CallObserver.observeCall,CallObserver.heard,CallObserver.held,idle,named,jump,
      jal_indirect,single]
  · rw [List.length_append,List.length_singleton,CallObserver.heardAll,CallObserver.run]
    rcases state with idle | ⟨skips,_⟩
    · have silent : o.heard order mnemonic = [] := by simp [CallObserver.heard,idle]
      rw [silent,List.nil_append]
      rcases kind with ⟨jump,token,rfl,place⟩ | branch
      · have apart := ((register_iff.mp apart).2 token List.mem_cons_self).1
        simp [CallObserver.run,CallObserver.heardAll,CallObserver.observeCall,CallObserver.heard,CallObserver.addPendingCall,
          CallObserver.held,idle,named,jump,jal_indirect,place,separator,single]
      · have skips : (o.observeCall order mnemonic).state = .skipToComma := by
          simp [CallObserver.observeCall,idle,named,branch,brasl_indirect]
        rw [linked _ _ _ skips apart separator]
        congr 2
        omega
    · have same := @run_skipped _ order [mnemonic] skips (by simpa using identifier_comma named)
      have silent : o.heard order mnemonic = [] := by simp [CallObserver.heard,skips]
      have still : o.observeCall order mnemonic = o := same.1
      rw [silent,still,List.nil_append,linked o register comma skips apart separator]
      congr 2
      omega

theorem idle_next (state : o.state = .none) : (o.observeCall order token).state ≠ .jalAfterFirst := by
  unfold CallObserver.observeCall
  rw [state]
  dsimp only
  split_ifs <;> simp [state]

/-- What is read as something else has another call heard, or its own not. -/
theorem call_misread (spelled : Spelled mnemonic between target) (awaited : Bool) (holds : Holds o order)
    (misread : ¬ (o.state = .none ∨ (o.state = .skipToComma ∧ between ≠ []))) :
    (∃ call ∈ o.heardAll order (mnemonic::(between ++ [target])), call ∉ o.held awaited ∧ call.order = order) ∨
      ((∀ call ∈ o.heardAll order (mnemonic::(between ++ [target])), call.order ≤ order) ∧
        (o.run order (mnemonic::(between ++ [target]))).state ≠ .jalAfterFirst) := by
  have named := spelled.named
  have single := spelled.single
  cases state : o.state with
  | none => exact absurd (.inl state) misread
  | direct =>
    left
    rw [held_none (by rw [state]; simp)]
    refine ⟨⟨mnemonic.text,mnemonic.location,order⟩,?_,List.not_mem_nil,rfl⟩
    rw [CallObserver.heardAll]
    exact List.mem_append_left _ (by simp [CallObserver.heard,state,named])
  | jalFirst =>
    left
    rw [held_none (by rw [state]; simp)]
    refine ⟨⟨mnemonic.text,mnemonic.location,order⟩,?_,List.not_mem_nil,rfl⟩
    obtain ⟨first,rest,shape,apart⟩ : ∃ first rest, between ++ [target] = first::rest ∧ first.kind ≠ .comma := by
      rcases spelled_cases spelled with ⟨_,rfl⟩ | ⟨_,rfl⟩ | ⟨register,comma,rfl,plain,_⟩
      · exact ⟨target,[],rfl,identifier_comma single⟩
      · exact ⟨target,[],rfl,identifier_comma single⟩
      · obtain ⟨present,plain⟩ := register_iff.mp plain
        cases register with
        | nil => exact absurd rfl present
        | cons first register => exact ⟨first,_,rfl,(plain first List.mem_cons_self).1⟩
    rw [shape,CallObserver.heardAll,CallObserver.heardAll]
    apply List.mem_append_right
    apply List.mem_append_left
    simp [CallObserver.observeCall,CallObserver.heard,state,named,apart]
  | skipToComma =>
    right
    have empty : between = [] := by
      by_contra present
      exact misread (.inr ⟨state,present⟩)
    rw [empty]
    obtain ⟨kept,silent⟩ := @run_skipped _ order [mnemonic,target] state
      (by simpa using ⟨identifier_comma named,identifier_comma single⟩)
    exact ⟨by simp [silent],by simp [kept,state]⟩
  | jalAfterFirst =>
    right
    have idle : (o.observeCall order mnemonic).state = .none := by
      simp [CallObserver.observeCall,state,identifier_comma named]
    have plain : ∀ token ∈ between, isIdentifier token = true → isCallWord token.text = false := by
      rcases spelled_cases spelled with ⟨_,rfl⟩ | ⟨_,rfl⟩ | ⟨register,comma,rfl,plain,separator,_⟩
      · simp
      · simp
      · intro token member place
        rcases List.mem_append.mp member with inside | last
        · exact ((register_iff.mp plain).2 token inside).2 place
        · rw [List.mem_singleton.mp last] at place
          exact absurd separator (identifier_comma place)
    obtain ⟨kept,silent⟩ := @run_plain _ (order+1) _ idle plain
    have quiet : (o.observeCall order mnemonic).heard (order + 1 + between.length) target = [] := by
      simp [CallObserver.heard,idle]
    constructor
    · intro call heard
      rw [CallObserver.heardAll,heardAll_append,silent,kept,List.nil_append,CallObserver.heardAll,quiet] at heard
      have only : call = ⟨o.jalTarget,o.jalLocation,o.jalOrder⟩ := by
        simpa [CallObserver.heardAll,CallObserver.heard,state,identifier_comma named] using heard
      have before := holds state
      rw [only]
      dsimp only
      omega
    · rw [CallObserver.run,run_append,kept]
      exact idle_next idle

end Steps

section Pieces
variable {o : CallObserver} {order : Nat} {piece : Piece} {pieces : List Piece}

def Piece.Valid : Piece → Prop
  | .word _ => True
  | .call mnemonic between target => Spelled mnemonic between target

theorem callsOf_later {call : Call} (listed : call ∈ callsOf order pieces) : order < call.order := by
  induction pieces generalizing order with
  | nil => cases listed
  | cons piece rest ih =>
    cases piece with
    | word token =>
      have later := @ih (order+1) listed
      omega
    | call mnemonic between target =>
      rcases List.mem_cons.mp listed with rfl | listed
      · dsimp only
        omega
      · have later := ih listed
        omega

/-- A token outside the calls, with the calls behind it as they are heard and as they should be. -/
theorem word_iff {token : Token} {actual expected : List Call} (holds : Holds o order) (awaited : Bool)
    (later : (o.observeCall order token).state ≠ .jalAfterFirst → ∀ call ∈ actual, order < call.order)
    (after : ∀ call ∈ expected, order < call.order) :
    o.heard order token ++ actual = o.held awaited ++ expected ↔ Reads o.state awaited (.word token) ∧ actual = expected := by
  by_cases read : Reads o.state awaited (.word token)
  · have same : o.heard order token = o.held awaited := by
      unfold Reads at read
      unfold CallObserver.heard CallObserver.held
      cases state : o.state with
      | none => simp
      | direct => simpa [state] using read
      | jalFirst => simp
      | skipToComma => simp
      | jalAfterFirst =>
        simp only [state] at read
        by_cases comma : token.kind = .comma <;> simp [comma,read]
    rw [same,List.append_cancel_left_eq]
    exact (and_iff_right read).symm
  · refine iff_of_false ?_ (fun both => read both.1)
    intro equal
    have foreign {call : Call} (heard : call ∈ o.heard order token) (free : o.held awaited = []) : order < call.order := by
      apply after
      have listed : call ∈ o.held awaited ++ expected := by
        rw [← equal]
        exact List.mem_append_left _ heard
      rwa [free] at listed
    unfold Reads at read
    cases state : o.state with
    | none => simp [state] at read
    | jalFirst => simp [state] at read
    | skipToComma => simp [state] at read
    | direct =>
      have named : isIdentifier token = true := by simpa [state] using read
      have behind := @foreign ⟨token.text,token.location,order⟩ (by simp [CallObserver.heard,state,named])
        (held_none (by rw [state]; simp) awaited)
      exact Nat.lt_irrefl _ behind
    | jalAfterFirst =>
      have before := holds state
      simp only [state] at read
      by_cases comma : token.kind = .comma
      · have waits : awaited = true := by simpa [comma] using read
        have quiet : o.heard order token = [] := by simp [CallObserver.heard,state,comma]
        have kept : (⟨o.jalTarget,o.jalLocation,o.jalOrder⟩ : Call) ∈ actual := by
          rw [quiet,List.nil_append] at equal
          rw [equal]
          exact List.mem_append_left _ (by simp [CallObserver.held,state,waits])
        have behind := later (by simp [CallObserver.observeCall,state,comma]) _ kept
        dsimp only at behind
        omega
      · have free : o.held awaited = [] := by simpa [CallObserver.held,state,comma] using read
        have behind := @foreign ⟨o.jalTarget,o.jalLocation,o.jalOrder⟩ (by simp [CallObserver.heard,state,comma]) free
        dsimp only at behind
        omega

theorem call_iff {mnemonic target : Token} {between : List Token} {actual expected : List Call}
    (spelled : Spelled mnemonic between target) (holds : Holds o order) (awaited : Bool)
    (later : (o.run order (mnemonic::(between ++ [target]))).state ≠ .jalAfterFirst →
      ∀ call ∈ actual, order + between.length + 1 < call.order)
    (after : ∀ call ∈ expected, order < call.order) :
    o.heardAll order (mnemonic::(between ++ [target])) ++ actual =
        o.held awaited ++ ⟨target.text,target.location,order + between.length + 1⟩::expected ↔
      Reads o.state awaited (.call mnemonic between target) ∧
        actual = (o.run order (mnemonic::(between ++ [target]))).held true ++ expected := by
  by_cases read : o.state = .none ∨ (o.state = .skipToComma ∧ between ≠ [])
  · have own := @call_read _ order _ _ _ spelled read
    have free : o.held awaited = [] := by
      apply held_none
      rcases read with idle | ⟨skips,_⟩
      · rw [idle]
        simp
      · rw [skips]
        simp
    have split (calls : List Call) : (⟨target.text,target.location,order + between.length + 1⟩ : Call)::calls =
        [⟨target.text,target.location,order + between.length + 1⟩] ++ calls := rfl
    rw [free,List.nil_append,split,← own,List.append_assoc,List.append_cancel_left_eq]
    exact (and_iff_right read).symm
  · refine iff_of_false ?_ (fun both => read both.1)
    intro equal
    rcases call_misread spelled awaited holds read with ⟨call,heard,foreign,here⟩ | ⟨early,released⟩
    · have listed : call ∈ o.held awaited ++ ⟨target.text,target.location,order + between.length + 1⟩::expected := by
        rw [← equal]
        exact List.mem_append_left _ heard
      rcases List.mem_cons.mp ((List.mem_append.mp listed).resolve_left foreign) with same | behind
      · have place := congrArg Call.order same
        dsimp only at place
        omega
      · have late := after _ behind
        omega
    · have missing : (⟨target.text,target.location,order + between.length + 1⟩ : Call) ∈
          o.heardAll order (mnemonic::(between ++ [target])) ++ actual := by
        rw [equal]
        exact List.mem_append_right _ List.mem_cons_self
      rcases List.mem_append.mp missing with heard | heard
      · have before := early _ heard
        dsimp only at before
        omega
      · have behind := later released _ heard
        dsimp only at behind
        omega

-- at the end of the file only a call that is held back is heard
theorem end_iff (awaited : Bool) (stop : SourceLocation) :
    o.heardAll order [endOfFile stop] = o.held awaited ↔ (o.state = .jalAfterFirst → awaited = true) := by
  unfold CallObserver.heardAll CallObserver.heardAll CallObserver.heard CallObserver.held
  cases state : o.state with
  | none => simp
  | direct => simp [endOfFile,isIdentifier]
  | jalFirst => simp
  | skipToComma => simp
  | jalAfterFirst => cases awaited <;> simp [endOfFile]

theorem heard_iff (valid : ∀ piece ∈ pieces, piece.Valid) (holds : Holds o order) (awaited : Bool) (stop : SourceLocation) :
    o.heardAll order (pieces.flatMap Piece.tokens ++ [endOfFile stop]) = o.held awaited ++ callsOf order pieces ↔
      Undisturbed o awaited order pieces := by
  induction pieces generalizing o order awaited with
  | nil =>
    rw [callsOf,List.append_nil]
    exact end_iff awaited stop
  | cons piece rest ih =>
    have tail := ih (fun piece member => valid piece (List.mem_cons_of_mem _ member)) (run_holds holds piece.tokens) piece.isCall
    rw [List.flatMap_cons,List.append_assoc,heardAll_append,Undisturbed,← tail]
    cases piece with
    | word token =>
      have single : o.heardAll order [token] = o.heard order token := List.append_nil _
      have silent : (o.run order [token]).held false = [] := if_neg (by simp)
      simp only [Piece.tokens,Piece.isCall,List.length_singleton,callsOf,single,silent,List.nil_append]
      apply word_iff holds awaited
      · intro released call heard
        exact (heardAll_later heard).resolve_right (fun both => released both.1)
      · intro call listed
        have after := callsOf_later listed
        omega
    | call mnemonic between target =>
      have length : (Piece.call mnemonic between target).tokens.length = between.length + 2 := by simp [Piece.tokens]
      rw [length,← Nat.add_assoc]
      apply call_iff (valid _ List.mem_cons_self) holds awaited
      · intro released call heard
        exact (heardAll_later heard).resolve_right (fun both => released both.1)
      · intro call listed
        have after := callsOf_later listed
        omega

end Pieces

section Source
variable (indexer : Indexer)

theorem observe_run (asm : SemindexAsmIndexer) (tokens : List Token) :
    (tokens.foldl (SemindexAsmIndexer.observe indexer) asm).callObserver = asm.callObserver.run asm.tokenOrder tokens ∧
      (tokens.foldl (SemindexAsmIndexer.observe indexer) asm).tokenOrder = asm.tokenOrder + tokens.length := by
  induction tokens generalizing asm with
  | nil => exact ⟨rfl,rfl⟩
  | cons token rest ih =>
    have parts := observe_parts indexer asm token
    obtain ⟨calls,order⟩ := ih (asm.observe indexer token)
    rw [List.foldl_cons,calls,order,parts.calls,parts.order,List.length_cons]
    exact ⟨rfl,by omega⟩

theorem observeAll_calls (tokens : List Token) :
    (observeAll indexer tokens).callObserver.calls = ({} : CallObserver).heardAll 0 tokens := by
  unfold observeAll
  rw [(observe_run indexer {} tokens).1,run_calls]
  rfl

theorem instruction_pieces (mnemonic : Token) (operands : List Token) (named : isIdentifier mnemonic) :
    (Item.instruction mnemonic operands named).pieces =
      match callTarget mnemonic operands with
      | some call => [.call mnemonic call.1 call.2]
      | none => (mnemonic::operands).map .word := by
  rw [Item.pieces]
  cases callTarget mnemonic operands with
  | none => rfl
  | some call => rfl

theorem pieces_valid (item : Item) : ∀ piece ∈ item.pieces, piece.Valid := by
  have words (tokens : List Token) : ∀ piece ∈ tokens.map Piece.word, piece.Valid := by
    intro piece member
    obtain ⟨token,_,rfl⟩ := List.mem_map.mp member
    trivial
  cases item with
  | label name colon named closed => exact words _
  | directive period name arguments started named => exact words _
  | instruction mnemonic operands named =>
    rw [instruction_pieces]
    cases found : callTarget mnemonic operands with
    | none => exact words _
    | some call =>
      intro piece member
      rw [List.mem_singleton.mp member]
      exact (callTarget_spelled named found).1

theorem pieces_tokens (item : Item) : item.pieces.flatMap Piece.tokens = item.tokens := by
  have words (tokens : List Token) : (tokens.map Piece.word).flatMap Piece.tokens = tokens := by
    rw [List.flatMap_map]
    exact List.flatMap_singleton' tokens
  cases item with
  | label name colon named closed => exact words _
  | directive period name arguments started named => exact words _
  | instruction mnemonic operands named =>
    rw [instruction_pieces]
    cases found : callTarget mnemonic operands with
    | none => exact words _
    | some call =>
      dsimp only
      rw [List.flatMap_singleton,Piece.tokens,Item.tokens,← (callTarget_spelled named found).2]

/-- The calls of a source are its direct calls, at their targets, exactly where
every piece finds the observer ready for it. -/
theorem calls_recognised_iff (items : List Item) (stop : SourceLocation) :
    (observeAll indexer (items.flatMap Item.tokens ++ [endOfFile stop])).callObserver.calls = directCalls items ↔
      Undisturbed {} false 0 (items.flatMap Item.pieces) := by
  have valid : ∀ piece ∈ items.flatMap Item.pieces, piece.Valid := by
    intro piece member
    obtain ⟨item,_,inside⟩ := List.mem_flatMap.mp member
    exact pieces_valid item piece inside
  have same : items.flatMap Item.tokens = (items.flatMap Item.pieces).flatMap Piece.tokens := by
    rw [List.flatMap_assoc]
    exact List.flatMap_congr (fun item _ => (pieces_tokens item).symm)
  rw [observeAll_calls,same]
  exact heard_iff valid (fun state => by cases state) false stop

end Source

section Apart
variable {o : CallObserver} {order : Nat} {awaited : Bool} {pieces : List Piece}

/-- Mnemonics stand in calls only, and behind a call by `jal` without a link stands
neither a call nor a comma. -/
structure Apart (pieces : List Piece) : Prop where
  words : ∀ token, .word token ∈ pieces → isIdentifier token = true → isCallWord token.text = false
  followed : ∀ before mnemonic target next after, pieces = before ++ .call mnemonic [] target::next::after →
    mnemonic.text = jal → ∃ token, next = .word token ∧ token.kind ≠ .comma

theorem Apart.tail {piece : Piece} (apart : Apart (piece::pieces)) : Apart pieces :=
  ⟨fun token listed => apart.words token (List.mem_cons_of_mem _ listed),
    fun before mnemonic target next after split =>
      apart.followed (piece::before) mnemonic target next after (by rw [split]; rfl)⟩

theorem call_state {mnemonic target : Token} {between : List Token} (spelled : Spelled mnemonic between target)
    (idle : o.state = .none) : (o.run order (mnemonic::(between ++ [target]))).state = .none ∨
      between = [] ∧ mnemonic.text = jal ∧ (o.run order (mnemonic::(between ++ [target]))).state = .jalAfterFirst := by
  have named := spelled.named
  have single := spelled.single
  rcases spelled_cases spelled with ⟨direct,rfl⟩ | ⟨jump,rfl⟩ | ⟨register,comma,rfl,apart,separator,kind⟩
  · left
    simp [CallObserver.run,CallObserver.observeCall,CallObserver.addPendingCall,idle,named,direct,single]
  · right
    exact ⟨rfl,jump,by simp [CallObserver.run,CallObserver.observeCall,idle,named,jump,jal_indirect,single]⟩
  · left
    rcases kind with ⟨jump,token,rfl,place⟩ | branch
    · simp [CallObserver.run,CallObserver.observeCall,CallObserver.addPendingCall,idle,named,jump,jal_indirect,place,
        separator,single]
    · have skips : (o.observeCall order mnemonic).state = .skipToComma := by
        simp [CallObserver.observeCall,idle,named,branch,brasl_indirect]
      rw [CallObserver.run,List.append_assoc]
      exact (run_link skips (fun token member => ((register_iff.mp apart).2 token member).1) separator single).1

/-- Where mnemonics are apart from everything else, every piece is read as what it is. -/
theorem Apart.undisturbed (valid : ∀ piece ∈ pieces, piece.Valid) (apart : Apart pieces)
    (ready : o.state = .none ∨ awaited = true ∧ o.state = .jalAfterFirst ∧
      ∀ next rest, pieces = next::rest → ∃ token, next = .word token ∧ token.kind ≠ .comma) :
    Undisturbed o awaited order pieces := by
  induction pieces generalizing o awaited order with
  | nil =>
    intro held
    rcases ready with idle | ⟨waits,_⟩
    · rw [idle] at held
      cases held
    · exact waits
  | cons piece rest ih =>
    have later := fun {next : CallObserver} {flag : Bool} {from' : Nat} =>
      @ih next from' flag (fun piece member => valid piece (List.mem_cons_of_mem _ member)) apart.tail
    cases piece with
    | word token =>
      rcases ready with idle | ⟨waits,state,behind⟩
      · have same := @observe_word _ order _ idle (apart.words token List.mem_cons_self)
        refine ⟨by simp [Reads,idle],later (.inl ?_)⟩
        rw [Piece.tokens,CallObserver.run,CallObserver.run,same]
        exact idle
      · obtain ⟨_,shape,separate⟩ := behind _ _ rfl
        cases shape
        refine ⟨by simp [Reads,state,waits,separate],later (.inl ?_)⟩
        simp [Piece.tokens,CallObserver.run,CallObserver.observeCall,state,separate]
    | call mnemonic between target =>
      have idle : o.state = .none := ready.resolve_right (fun other => by
        obtain ⟨_,shape,_⟩ := other.2.2 _ _ rfl
        cases shape)
      refine ⟨.inl idle,later ?_⟩
      rcases @call_state _ order _ _ _ (valid _ List.mem_cons_self) idle with none | ⟨rfl,jump,waits⟩
      · exact .inl none
      · refine .inr ⟨rfl,waits,?_⟩
        intro next after shape
        exact apart.followed [] mnemonic target next after (by rw [shape]; rfl) jump

end Apart

section Adjacent

/-- `jal foo` and `call bar`. -/
def adjacentCalls : List Item :=
  [.instruction ⟨.identifier,jal,1,rfl⟩ [⟨.identifier,"foo".toList,5,rfl⟩] rfl,
    .instruction ⟨.identifier,"call".toList,9,rfl⟩ [⟨.identifier,"bar".toList,14,rfl⟩] rfl]

theorem jal_hides_next : ¬ ∀ (indexer : Indexer) (items : List Item) (stop : SourceLocation),
    (observeAll indexer (items.flatMap Item.tokens ++ [endOfFile stop])).callObserver.calls = directCalls items := by
  intro holds
  have equal := holds ⟨SourceManager.ofText "a.S".toList [],.all,false,[]⟩ adjacentCalls 17
  rw [observeAll_calls] at equal
  exact absurd equal (by decide)

end Adjacent
end Semindex.Parser.Asm
