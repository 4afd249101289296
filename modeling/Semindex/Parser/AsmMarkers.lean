import Semindex.Parser.Asm

/-! Where a source marks its functions. What a token tells is read off the tokens
up to it, last one first: the end of `.type name, @function`, of `.ent name`, of
`.end name` or of a label. -/
namespace Semindex.Parser.Asm

section Patterns

def isWord (text : Text) (token : Token) : Bool := isIdentifier token && token.text = text

def endsPeriod : List Token → Bool
  | dot::_ => dot.kind = .period
  | [] => false

section Directives
variable (period : List Token → Bool)

-- the tokens end with a directive; `period` tells which periods begin one
def endsDirective (directive : Text) : List Token → Bool
  | word::before => isWord directive word && period before
  | [] => false

-- `.type name`
def typedName : List Token → Option Token
  | name::before => if isIdentifier name && endsDirective period typeWord before then some name else none
  | [] => none

-- `.type name ,`
def typedComma : List Token → Option Token
  | comma::before => if comma.kind = .comma then typedName period before else none
  | [] => none

-- `.type name , @`
def typedPrefix : List Token → Option Token
  | mark::before => if isMarkerPrefix mark then typedComma period before else none
  | [] => none

/-- The function that the last token marks, in one of the spellings. -/
def marked : List Token → Option Token
  | mark::before =>
    if isIdentifier mark && endsDirective period entWord before then some mark
    else if isFunctionMarker mark && (typedComma period before).isSome then typedComma period before
    else if mark.text = functionWord then typedPrefix period before
    else none
  | [] => none

def ended : List Token → Option Token
  | name::before => if isIdentifier name && endsDirective period endWord before then some name else none
  | [] => none

def labelled : List Token → Option Token
  | colon::name::_ => if colon.kind = .colon && isIdentifier name then some name else none
  | _ => none

/-- What the last of the tokens tells. -/
def eventsAt (read : List Token) : List Event :=
  ((marked period read).map (fun name => Event.type name.text name.location (read.length-1))).toList ++
    ((ended period read).map (fun name => Event.close name.text (read.length-1))).toList ++
    ((labelled read).map (fun name => Event.label name.text name.location (read.length-2))).toList

def eventsFrom : List Token → List Token → List Event
  | _,[] => []
  | read,token::rest => eventsAt period (token::read) ++ eventsFrom (token::read) rest

end Directives

/-- What the tokens of a source tell of its functions. -/
def eventsOf (tokens : List Token) : List Event := eventsFrom endsPeriod [] tokens

mutual

/-- The last token is a period, and not taken for the word that `.ent`, `.end` or `.type name, @` is short of. -/
def opens : List Token → Bool
  | [] => false
  | dot::before => dot.kind = .period && !awaits before

def awaits : List Token → Bool
  | [] => false
  | word::before => (isWord entWord word && opens before) || (isWord endWord word && opens before) ||
    (isMarkerPrefix word && awaitsMarker before)

def awaitsMarker : List Token → Bool
  | [] => false
  | comma::before => comma.kind = .comma && awaitsComma before

def awaitsComma : List Token → Bool
  | [] => false
  | name::before => isIdentifier name && awaitsName before

def awaitsName : List Token → Bool
  | [] => false
  | word::before => isWord typeWord word && opens before

end

/-- What the indexer hears of it: a directive whose period is taken for a word is lost. -/
def heardOf (tokens : List Token) : List Event := eventsFrom opens [] tokens

theorem opens_cons (dot : Token) (read : List Token) : opens (dot::read) = true ↔ dot.kind = .period ∧
    endsDirective opens entWord read = false ∧ endsDirective opens endWord read = false ∧ typedPrefix opens read = none := by
  have name (read : List Token) : awaitsName read = endsDirective opens typeWord read := by
    cases read <;> rw [awaitsName,endsDirective]
  have comma (read : List Token) : awaitsComma read = (typedName opens read).isSome := by
    cases read with
    | nil => rfl
    | cons token before =>
      rw [awaitsComma,typedName,name]
      split_ifs with both
      · exact both
      · exact Bool.eq_false_iff.mpr both
  have mark (read : List Token) : awaitsMarker read = (typedComma opens read).isSome := by
    cases read with
    | nil => rfl
    | cons token before =>
      rw [awaitsMarker,typedComma,comma]
      by_cases separator : token.kind = .comma <;> simp [separator]
  have word : awaits read = (endsDirective opens entWord read || endsDirective opens endWord read || (typedPrefix opens read).isSome) := by
    cases read with
    | nil => rfl
    | cons token before =>
      rw [awaits,endsDirective,endsDirective,typedPrefix,mark]
      cases isMarkerPrefix token <;> simp
  rw [opens,word]
  simp [and_assoc]

theorem opens_period {read : List Token} (begins : opens read = true) : endsPeriod read = true := by
  cases read with
  | nil => cases begins
  | cons dot read => exact decide_eq_true ((opens_cons dot read).mp begins).1

end Patterns

section Kinds
variable {token : Token}

theorem identifier_kind (named : isIdentifier token = true) : token.kind ≠ .period ∧ token.kind ≠ .comma ∧ token.kind ≠ .colon := by
  refine ⟨?_,?_,?_⟩ <;> intro kind <;> simp [isIdentifier,kind] at named

theorem period_text (kind : token.kind = .period) : token.text = [ '.'] := by
  have lexed := token.lexed
  rw [kind] at lexed
  simpa [lexes] using lexed

theorem comma_text (kind : token.kind = .comma) : token.text = [ ','] := by
  have lexed := token.lexed
  rw [kind] at lexed
  simpa [lexes] using lexed

theorem colon_text (kind : token.kind = .colon) : token.text = [ ':'] := by
  have lexed := token.lexed
  rw [kind] at lexed
  simpa [lexes] using lexed

theorem identifier_present (named : isIdentifier token = true) : token.text ≠ [] := by
  have lexed := token.lexed
  unfold isIdentifier at named
  rcases Bool.or_eq_true_iff.mp named with kind | kind
  · rw [of_decide_eq_true kind] at lexed
    simpa [lexes] using lexed
  · rw [of_decide_eq_true kind] at lexed
    simpa [lexes] using lexed

theorem functionWord_long (c : Char) : [c] ≠ functionWord := by
  intro same
  cases congrArg List.length same

theorem marker_kind (mark : isFunctionMarker token = true) : token.kind ≠ .period ∧ token.kind ≠ .colon := by
  constructor
  · intro kind
    simp [isFunctionMarker,functionWord_long,period_text kind] at mark
  · intro kind
    simp [isFunctionMarker,functionWord_long,colon_text kind] at mark

theorem prefix_marker (mark : isMarkerPrefix token = true) :
    isFunctionMarker token = false ∧ token.kind ≠ .period ∧ token.kind ≠ .comma := by
  unfold isMarkerPrefix at mark
  simp only [Bool.or_eq_true,decide_eq_true_eq] at mark
  refine ⟨?_,?_,?_⟩
  · rcases mark with (text | text) | text <;> simp [isFunctionMarker,functionWord_long,text]
  · intro kind
    rcases mark with (text | text) | text <;> simp [period_text kind] at text
  · intro kind
    rcases mark with (text | text) | text <;> simp [comma_text kind] at text

end Kinds

section State
variable {indexer : Indexer} {asm : SemindexAsmIndexer} {token : Token} {read : List Token}

/-- The state of the directive behind a token. -/
def nextType (state : TypeState) (token : Token) : TypeState :=
  let reset : TypeState := if token.kind = .period then .dot else .none
  match state with
  | .none => reset
  | .dot =>
    if isWord typeWord token then .directive
    else if isWord entWord token then .entName
    else if isWord endWord token then .endName
    else reset
  | .directive => if isIdentifier token then .name else reset
  | .name => if token.kind = .comma then .comma else reset
  | .comma => if isFunctionMarker token then .none else if isMarkerPrefix token then .marker else reset
  | _ => .none

-- the name that the directive has behind the token, where it has one
def nextName (state : TypeState) (token : Token) (name : Text × SourceLocation) : Text × SourceLocation :=
  match state with
  | .directive => if isIdentifier token then (token.text,token.location) else name
  | _ => name

theorem observe_type (asm : SemindexAsmIndexer) (token : Token) :
    (asm.observe indexer token).typeState = nextType asm.typeState token ∧
      (nextType asm.typeState token = .name ∨ nextType asm.typeState token = .comma ∨ nextType asm.typeState token = .marker →
        ((asm.observe indexer token).typeName,(asm.observe indexer token).typeLocation) =
          nextName asm.typeState token (asm.typeName,asm.typeLocation)) := by
  have word (text : Text) (named : isIdentifier token = true) : isWord text token = true ↔ token.text = text := by
    simp [isWord,named]
  have inner (first : SemindexAsmIndexer) : (first.observeType indexer token).typeState =
        (if first.typeState = .none then .none else nextType first.typeState token) ∧
      (nextType first.typeState token = .name ∨ nextType first.typeState token = .comma ∨
          nextType first.typeState token = .marker →
        ((first.observeType indexer token).typeName,(first.observeType indexer token).typeLocation) =
          nextName first.typeState token (first.typeName,first.typeLocation)) := by
    unfold SemindexAsmIndexer.observeType SemindexAsmIndexer.resetType SemindexAsmIndexer.addFunctionType nextType nextName
    cases state : first.typeState with
    | none => simp [state]
    | dot =>
      cases named : isIdentifier token with
      | false => by_cases dot : token.kind = .period <;> simp [isWord,named,dot]
      | true =>
        simp only [word _ named,Bool.not_true,Bool.false_eq_true,if_false,reduceCtorEq]
        split_ifs <;> simp
    | directive => cases named : isIdentifier token <;> by_cases dot : token.kind = .period <;> simp [dot]
    | entName => exact ⟨rfl,fun other => by simp at other⟩
    | endName => exact ⟨rfl,fun other => by simp at other⟩
    | name => by_cases comma : token.kind = .comma <;> by_cases dot : token.kind = .period <;> simp [comma,dot]
    | comma =>
      cases mark : isFunctionMarker token with
      | true => exact ⟨rfl,fun other => by simp at other⟩
      | false =>
        cases sign : isMarkerPrefix token with
        | true => exact ⟨rfl,fun _ => rfl⟩
        | false => by_cases dot : token.kind = .period <;> simp [dot]
    | marker => exact ⟨rfl,fun other => by simp at other⟩
  unfold SemindexAsmIndexer.observe
  extract_lets first second third fourth
  have later : (fourth.typeState = second.typeState ∧ fourth.typeName = second.typeName ∧
      fourth.typeLocation = second.typeLocation) := by
    have labelled : third.typeState = second.typeState ∧ third.typeName = second.typeName ∧
        third.typeLocation = second.typeLocation := by
      unfold third
      split_ifs <;> exact ⟨rfl,rfl,rfl⟩
    unfold fourth
    split_ifs <;> exact labelled
  obtain ⟨state,name,location⟩ := later
  rw [state,name,location]
  unfold second
  by_cases idle : asm.typeState = .none
  · have here : first.typeState = .none := idle
    rw [if_neg (not_not.mpr here)]
    unfold nextType nextName
    simp only [idle]
    split_ifs with dot
    · exact ⟨rfl,by simp⟩
    · exact ⟨idle,by simp⟩
  · rw [if_pos idle]
    have both := inner first
    exact ⟨both.1.trans (if_neg idle),both.2⟩

theorem word_kind {text : Text} (word : isWord text token = true) : token.kind ≠ .period :=
  (identifier_kind (Bool.and_eq_true_iff.mp word).1).1

theorem word_apart {text other : Text} (apart : text ≠ other) (word : isWord text token = true) : isWord other token = false := by
  have same : token.text = text := of_decide_eq_true (Bool.and_eq_true_iff.mp word).2
  simp [isWord,same,apart]

theorem directives_apart : typeWord ≠ entWord ∧ typeWord ≠ endWord ∧ entWord ≠ endWord := by
  decide

-- each state is entered from one state, by one kind of token
structure Enters (state : TypeState) (token : Token) : Prop where
  dot : nextType state token = .dot ↔ token.kind = .period ∧ state ≠ .entName ∧ state ≠ .endName ∧ state ≠ .marker
  directive : nextType state token = .directive ↔ isWord typeWord token = true ∧ state = .dot
  entName : nextType state token = .entName ↔ isWord entWord token = true ∧ state = .dot
  endName : nextType state token = .endName ↔ isWord endWord token = true ∧ state = .dot
  name : nextType state token = .name ↔ isIdentifier token = true ∧ state = .directive
  comma : nextType state token = .comma ↔ token.kind = .comma ∧ state = .name
  marker : nextType state token = .marker ↔ isMarkerPrefix token = true ∧ state = .comma

theorem nextType_enters (state : TypeState) (token : Token) : Enters state token := by
  have reset (other : TypeState) (apart : other ≠ .dot ∧ other ≠ .none) :
      (if token.kind = .period then TypeState.dot else .none) ≠ other := by
    split_ifs
    · exact apart.1.symm
    · exact apart.2.symm
  have dotted : (if token.kind = .period then TypeState.dot else .none) = .dot ↔ token.kind = .period := by
    by_cases period : token.kind = .period <;> simp [period]
  cases state with
  | none =>
    exact ⟨dotted.trans (by simp),iff_of_false (reset _ (by simp)) (by simp),iff_of_false (reset _ (by simp)) (by simp),
      iff_of_false (reset _ (by simp)) (by simp),iff_of_false (reset _ (by simp)) (by simp),
      iff_of_false (reset _ (by simp)) (by simp),iff_of_false (reset _ (by simp)) (by simp)⟩
  | dot =>
    cases type : isWord typeWord token with
    | true =>
      have ent := word_apart directives_apart.1 type
      have close := word_apart directives_apart.2.1 type
      have kind := word_kind type
      constructor <;> simp [nextType,type,ent,close,kind]
    | false =>
      cases ent : isWord entWord token with
      | true =>
        have close := word_apart directives_apart.2.2 ent
        have kind := word_kind ent
        constructor <;> simp [nextType,type,ent,close,kind]
      | false =>
        cases close : isWord endWord token with
        | true =>
          have kind := word_kind close
          constructor <;> simp [nextType,type,ent,close,kind]
        | false => by_cases period : token.kind = .period <;> constructor <;> simp [nextType,type,ent,close,period]
  | directive =>
    cases named : isIdentifier token with
    | true => constructor <;> simp [nextType,named,(identifier_kind named).1]
    | false => by_cases period : token.kind = .period <;> constructor <;> simp [nextType,named,period]
  | name =>
    by_cases comma : token.kind = .comma
    · constructor <;> simp [nextType,comma]
    · by_cases period : token.kind = .period <;> constructor <;> simp [nextType,period,comma]
  | comma =>
    cases mark : isFunctionMarker token with
    | true =>
      have sign : isMarkerPrefix token = false := by
        by_contra other
        rw [(prefix_marker (Bool.eq_true_of_not_eq_false other)).1] at mark
        cases mark
      constructor <;> simp [nextType,mark,sign,(marker_kind mark).1]
    | false =>
      cases sign : isMarkerPrefix token with
      | true => constructor <;> simp [nextType,mark,sign,(prefix_marker sign).2.1]
      | false => by_cases period : token.kind = .period <;> constructor <;> simp [nextType,mark,sign,period]
  | entName =>
    by_cases period : token.kind = .period <;> constructor <;> simp [nextType,period]
  | endName =>
    by_cases period : token.kind = .period <;> constructor <;> simp [nextType,period]
  | marker =>
    by_cases period : token.kind = .period <;> constructor <;> simp [nextType,period]

end State

section Scan
variable {indexer : Indexer} {asm : SemindexAsmIndexer} {token : Token} {read : List Token}

/-- The indexer behind these tokens, last one first. -/
structure Scanned (read : List Token) (asm : SemindexAsmIndexer) : Prop where
  order : asm.tokenOrder = read.length
  dot : asm.typeState = .dot ↔ opens read = true
  directive : asm.typeState = .directive ↔ endsDirective opens typeWord read = true
  entName : asm.typeState = .entName ↔ endsDirective opens entWord read = true
  endName : asm.typeState = .endName ↔ endsDirective opens endWord read = true
  name : asm.typeState = .name ↔ (typedName opens read).isSome
  comma : asm.typeState = .comma ↔ (typedComma opens read).isSome
  marker : asm.typeState = .marker ↔ (typedPrefix opens read).isSome
  named : ∀ name, typedName opens read = some name ∨ typedComma opens read = some name ∨ typedPrefix opens read = some name →
    (asm.typeName,asm.typeLocation) = (name.text,name.location)
  previous : ∀ last before, read = last::before → isIdentifier last = true →
    asm.previousIdentifier = last.text ∧ asm.previousLocation = last.location ∧ asm.previousOrder = before.length
  separate : (∀ last before, read = last::before → isIdentifier last = false) → asm.previousIdentifier = []

theorem scanned_start : Scanned [] {} :=
  ⟨rfl,by simp [opens],by simp [endsDirective],by simp [endsDirective],by simp [endsDirective],by simp [typedName],
    by simp [typedComma],by simp [typedPrefix],by simp [typedName,typedComma,typedPrefix],by simp,by simp⟩

theorem Scanned.observe (scanned : Scanned read asm) :
    Scanned (token::read) (asm.observe indexer token) := by
  have parts := observe_parts indexer asm token
  obtain ⟨state,named⟩ := @observe_type indexer asm token
  have enters := nextType_enters asm.typeState token
  refine ⟨by rw [parts.order,scanned.order,List.length_cons],?_,?_,?_,?_,?_,?_,?_,?_,?_,?_⟩
  · rw [state,enters.dot,opens_cons,ne_eq,ne_eq,ne_eq,scanned.entName,scanned.endName,scanned.marker]
    simp
  · rw [state,enters.directive,scanned.dot]
    exact Bool.and_eq_true_iff.symm
  · rw [state,enters.entName,scanned.dot]
    exact Bool.and_eq_true_iff.symm
  · rw [state,enters.endName,scanned.dot]
    exact Bool.and_eq_true_iff.symm
  · rw [state,enters.name,scanned.directive,typedName,← Bool.and_eq_true_iff]
    cases isIdentifier token && endsDirective opens typeWord read <;> simp
  · rw [state,enters.comma,scanned.name,typedComma]
    by_cases comma : token.kind = .comma <;> simp [comma]
  · rw [state,enters.marker,scanned.comma,typedPrefix]
    cases isMarkerPrefix token <;> simp
  · intro name ends
    rcases ends with name' | comma | mark
    · rw [typedName] at name'
      split at name'
      · rename_i both
        cases Option.some.inj name'
        have both := Bool.and_eq_true_iff.mp both
        have before := scanned.directive.mpr both.2
        rw [named (.inl (enters.name.mpr ⟨both.1,before⟩)),before]
        exact if_pos both.1
      · cases name'
    · rw [typedComma] at comma
      split at comma
      · rename_i separator
        have before := scanned.name.mpr (by rw [comma]; rfl)
        rw [named (.inr (.inl (enters.comma.mpr ⟨separator,before⟩))),before]
        exact scanned.named name (.inl comma)
      · cases comma
    · rw [typedPrefix] at mark
      split at mark
      · rename_i sign
        have before := scanned.comma.mpr (by rw [mark]; rfl)
        rw [named (.inr (.inr (enters.marker.mpr ⟨sign,before⟩))),before]
        exact scanned.named name (.inr (.inl mark))
      · cases mark
  · intro last before shape place
    cases shape
    rw [parts.previous.1,if_pos place]
    obtain ⟨location,order⟩ := parts.previous.2 place
    exact ⟨rfl,location,order.trans scanned.order⟩
  · intro apart
    rw [parts.previous.1,if_neg (by simp [apart token read rfl])]

-- what the token tells the indexer is what the tokens up to it spell
theorem Scanned.typeEvent (scanned : Scanned read asm) : (asm.typeEvent token).toList =
    ((marked opens (token::read)).map (fun name => Event.type name.text name.location read.length)).toList ++
      ((ended opens (token::read)).map (fun name => Event.close name.text read.length)).toList := by
  have ent : endsDirective opens entWord read = decide (asm.typeState = .entName) := by simp [scanned.entName]
  have close : endsDirective opens endWord read = decide (asm.typeState = .endName) := by simp [scanned.endName]
  have comma : (typedComma opens read).isSome = decide (asm.typeState = .comma) := by simp [scanned.comma]
  have sign : (typedPrefix opens read).isSome = decide (asm.typeState = .marker) := by simp [scanned.marker]
  unfold SemindexAsmIndexer.typeEvent
  rw [marked,ended,ent,close,comma,scanned.order]
  cases state : asm.typeState with
  | comma =>
    rw [state] at comma sign
    obtain ⟨name,found⟩ := Option.isSome_iff_exists.mp comma
    have named := Prod.mk.inj (scanned.named name (.inr (.inl found)))
    have none : typedPrefix opens read = .none := by simpa using sign
    rw [named.1,named.2,found,none]
    cases isFunctionMarker token <;> simp
  | marker =>
    rw [state] at comma sign
    obtain ⟨name,found⟩ := Option.isSome_iff_exists.mp sign
    have named := Prod.mk.inj (scanned.named name (.inr (.inr found)))
    rw [named.1,named.2,found]
    by_cases text : token.text = functionWord
    · have mark : isFunctionMarker token = true := by simp [isFunctionMarker,text]
      simp [mark,text]
    · simp [text]
  | none =>
    have none : typedPrefix opens read = .none := by simpa [state] using sign
    simp [none]
  | dot =>
    have none : typedPrefix opens read = .none := by simpa [state] using sign
    simp [none]
  | directive =>
    have none : typedPrefix opens read = .none := by simpa [state] using sign
    simp [none]
  | name =>
    have none : typedPrefix opens read = .none := by simpa [state] using sign
    simp [none]
  | entName =>
    have none : typedPrefix opens read = .none := by simpa [state] using sign
    cases isIdentifier token <;> simp [none]
  | endName =>
    have none : typedPrefix opens read = .none := by simpa [state] using sign
    cases isIdentifier token <;> simp [none]

theorem Scanned.labelEvent (scanned : Scanned read asm) : asm.labelEvent token =
    (labelled (token::read)).map (fun name => Event.label name.text name.location (read.length-1)) := by
  unfold SemindexAsmIndexer.labelEvent
  cases read with
  | nil =>
    have none : asm.previousIdentifier = [] := scanned.separate (by simp)
    simp [none,labelled]
  | cons last before =>
    rw [labelled]
    cases named : isIdentifier last with
    | false => 
      have none : asm.previousIdentifier = [] := scanned.separate (fun other rest shape => (List.cons.inj shape).1 ▸ named)
      simp [none]
    | true =>
      obtain ⟨text,location,order⟩ := scanned.previous last before rfl named
      have present : asm.previousIdentifier ≠ [] := by
        rw [text]
        exact identifier_present named
      rw [location,order,text]
      by_cases colon : token.kind = .colon <;> simp [colon,identifier_present named]

theorem Scanned.events (scanned : Scanned read asm) : asm.events token = eventsAt opens (token::read) := by
  unfold SemindexAsmIndexer.events eventsAt
  rw [scanned.typeEvent,scanned.labelEvent]
  rfl

/-- What is heard of its functions, and what becomes of it. -/
theorem observe_events (scanned : Scanned read asm) (tokens : List Token) :
    (tokens.foldl (SemindexAsmIndexer.observe indexer) asm).functionTable =
      (eventsFrom opens read tokens).foldl (FunctionTable.apply indexer) asm.functionTable := by
  induction tokens generalizing read asm with
  | nil => rfl
  | cons token rest ih =>
    rw [List.foldl_cons,ih scanned.observe,(observe_parts indexer asm token).functionTable,scanned.events,eventsFrom,
      List.foldl_append]

theorem observeAll_events (tokens : List Token) :
    (observeAll indexer tokens).functionTable = (heardOf tokens).foldl (FunctionTable.apply indexer) {} :=
  observe_events scanned_start tokens

end Scan
end Semindex.Parser.Asm
