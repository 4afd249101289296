import Semindex.Parser.AsmMarkers

/-! The functions of an assembly source, from what its tokens tell of them in any
order. What the indexer makes of a function depends on where its marker stands. -/
namespace Semindex.Parser.Asm
open Semindex.Relational

section Told
variable (events : List Event) (f : Text)

def Event.isType : Event → Bool
  | .type name _ _ => name = f
  | _ => false

def Event.isLabel : Event → Bool
  | .label name _ _ => name = f
  | _ => false

def Event.isClose : Event → Bool
  | .close name _ => name = f
  | _ => false

-- the order of the token that tells it
def Event.time : Event → Nat
  | .type _ _ order => order
  | .close _ order => order
  | .label _ _ order => order + 1

def firstType : Option Marker := events.findSome? (fun event =>
  match event with
  | .type name location order => if name = f then some ⟨location,order⟩ else none
  | _ => none)

def firstLabel : Option Marker := events.findSome? (fun event =>
  match event with
  | .label name location order => if name = f then some ⟨location,order⟩ else none
  | _ => none)

def closing : Option Nat := events.findSome? (fun event =>
  match event with
  | .close name order => if name = f then some order else none
  | _ => none)

def markedNames : List Text := events.filterMap (fun event =>
  match event with
  | .type name _ _ => some name
  | _ => none)

def markerOrder : Nat := ((firstType events f).map Marker.order).getD 0
def labelOrder : Nat := ((firstLabel events f).map Marker.order).getD 0
def labelLocation : SourceLocation := ((firstLabel events f).map Marker.location).getD 0

end Told

section Table
variable {events : List Event} {f g : Text}

theorem firstType_append (more : List Event) : firstType (events ++ more) f = (firstType events f).or (firstType more f) :=
  List.findSome?_append

theorem firstLabel_append (more : List Event) : firstLabel (events ++ more) f = (firstLabel events f).or (firstLabel more f) :=
  List.findSome?_append

theorem closing_append (more : List Event) : closing (events ++ more) f = (closing events f).or (closing more f) :=
  List.findSome?_append

theorem firstType_mem {marker : Marker} (found : firstType events f = some marker) :
    Event.type f marker.location marker.order ∈ events := by
  obtain ⟨event,listed,same⟩ := List.exists_of_findSome?_eq_some found
  cases event with
  | type name location order =>
    dsimp only at same
    split at same
    · rename_i named
      cases Option.some.inj same
      rw [← named]
      exact listed
    · cases same
  | close name order => cases same
  | label name location order => cases same

theorem firstLabel_mem {marker : Marker} (found : firstLabel events f = some marker) :
    Event.label f marker.location marker.order ∈ events := by
  obtain ⟨event,listed,same⟩ := List.exists_of_findSome?_eq_some found
  cases event with
  | label name location order =>
    dsimp only at same
    split at same
    · rename_i named
      cases Option.some.inj same
      rw [← named]
      exact listed
    · cases same
  | close name order => cases same
  | type name location order => cases same

theorem closing_mem {order : Nat} (found : closing events f = some order) : Event.close f order ∈ events := by
  obtain ⟨event,listed,same⟩ := List.exists_of_findSome?_eq_some found
  cases event with
  | close name order =>
    dsimp only at same
    split at same
    · rename_i named
      cases Option.some.inj same
      rw [← named]
      exact listed
    · cases same
  | label name location order => cases same
  | type name location order => cases same

theorem mem_markedNames : f ∈ markedNames events ↔ (firstType events f).isSome := by
  unfold markedNames firstType
  rw [List.findSome?_isSome_iff,List.mem_filterMap]
  constructor
  · intro ⟨event,listed,same⟩
    cases event with
    | type name location order => exact ⟨_,listed,by simp [Option.some.inj same]⟩
    | close name order => cases same
    | label name location order => cases same
  · intro ⟨event,listed,found⟩
    cases event with
    | type name location order => exact ⟨_,listed,by simpa using found⟩
    | close name order => cases found
    | label name location order => cases found

end Table

section Ordered
variable {token name : Token} {read tokens : List Token} {event : Event}

theorem endsDirective_length {directive : Text} (ends : endsDirective endsPeriod directive read = true) : 2 ≤ read.length := by
  match read with
  | [] => cases ends
  | [word] => simp [endsDirective,endsPeriod] at ends
  | _::_::_ => simp

theorem typedName_length (found : typedName endsPeriod read = some name) : 3 ≤ read.length := by
  cases read with
  | nil => cases found
  | cons last before =>
    rw [typedName] at found
    split at found
    · rename_i both
      have length := endsDirective_length (Bool.and_eq_true_iff.mp both).2
      rw [List.length_cons]
      omega
    · cases found

theorem typedComma_length (found : typedComma endsPeriod read = some name) : 4 ≤ read.length := by
  cases read with
  | nil => cases found
  | cons last before =>
    rw [typedComma] at found
    split at found
    · have length := typedName_length found
      rw [List.length_cons]
      omega
    · cases found

theorem marked_length (found : marked endsPeriod read = some name) : 3 ≤ read.length := by
  cases read with
  | nil => cases found
  | cons last before =>
    rw [List.length_cons]
    rw [marked] at found
    split at found
    · rename_i both
      have length := endsDirective_length (Bool.and_eq_true_iff.mp both).2
      omega
    · split at found
      · have length := typedComma_length found
        omega
      · split at found
        · cases before with
          | nil => cases found
          | cons sign before =>
            rw [typedPrefix] at found
            split at found
            · have length := typedComma_length found
              rw [List.length_cons]
              omega
            · cases found
        · cases found

theorem labelled_length (found : labelled read = some name) : 2 ≤ read.length := by
  match read with
  | [] => cases found
  | [_] => cases found
  | _::_::_ => simp

theorem eventsAt_cases (listed : event ∈ eventsAt endsPeriod read) :
    (∃ name, marked endsPeriod read = some name ∧ event = .type name.text name.location (read.length-1)) ∨
      (∃ name, ended endsPeriod read = some name ∧ event = .close name.text (read.length-1)) ∨
      ∃ name, labelled read = some name ∧ event = .label name.text name.location (read.length-2) := by
  unfold eventsAt at listed
  rcases List.mem_append.mp listed with front | label
  · rcases List.mem_append.mp front with type | close
    · obtain ⟨name,found,same⟩ := Option.map_eq_some_iff.mp (Option.mem_toList.mp type)
      exact .inl ⟨name,found,same.symm⟩
    · obtain ⟨name,found,same⟩ := Option.map_eq_some_iff.mp (Option.mem_toList.mp close)
      exact .inr (.inl ⟨name,found,same.symm⟩)
  · obtain ⟨name,found,same⟩ := Option.map_eq_some_iff.mp (Option.mem_toList.mp label)
    exact .inr (.inr ⟨name,found,same.symm⟩)

theorem eventsAt_time (listed : event ∈ eventsAt endsPeriod (token::read)) : event.time = read.length := by
  rcases eventsAt_cases listed with ⟨name,found,rfl⟩ | ⟨name,found,rfl⟩ | ⟨name,found,rfl⟩
  · rfl
  · rfl
  · have length := labelled_length found
    rw [List.length_cons] at length
    rw [Event.time,List.length_cons]
    omega

theorem marked_colon (found : marked endsPeriod (token::read) = some name) : token.kind ≠ .colon := by
  rw [marked] at found
  split at found
  · rename_i both
    exact (identifier_kind (Bool.and_eq_true_iff.mp both).1).2.2
  · split at found
    · rename_i both
      exact (marker_kind (Bool.and_eq_true_iff.mp both).1).2
    · split at found
      · rename_i text
        have mark : isFunctionMarker token = true := by simp [isFunctionMarker,text]
        exact (marker_kind mark).2
      · cases found

theorem marked_ended (found : marked endsPeriod (token::read) = some name) : ended endsPeriod (token::read) = none := by
  rw [ended]
  split
  · rename_i both
    obtain ⟨named,close⟩ := Bool.and_eq_true_iff.mp both
    cases read with
    | nil => cases close
    | cons last before =>
      have word := (Bool.and_eq_true_iff.mp close).1
      have place := (Bool.and_eq_true_iff.mp word).1
      have text : last.text = endWord := of_decide_eq_true (Bool.and_eq_true_iff.mp word).2
      have ent : endsDirective endsPeriod entWord (last::before) = false := by
        rw [endsDirective,word_apart directives_apart.2.2.symm word]
        rfl
      have comma : typedComma endsPeriod (last::before) = none := if_neg (identifier_kind place).2.1
      have long : ∀ c : Char, endWord ≠ [c] := fun c same => by cases congrArg List.length same
      have sign : typedPrefix endsPeriod (last::before) = none := if_neg (by simp [isMarkerPrefix,text,long])
      rw [marked,ent,comma,sign] at found
      simp at found
  · rfl

-- a token tells one thing at most
theorem eventsAt_single : (eventsAt endsPeriod (token::read)).length ≤ 1 := by
  unfold eventsAt
  have one {α : Type} (a : Option α) : a.toList.length ≤ 1 := by cases a <;> simp
  cases type : marked endsPeriod (token::read) with
  | some name =>
    have label : labelled (token::read) = none := by
      cases read with
      | nil => rfl
      | cons last before =>
        rw [labelled,if_neg (by simp [marked_colon type])]
    rw [marked_ended type,label]
    simp
  | none =>
    cases close : ended endsPeriod (token::read) with
    | none => simp [one]
    | some name =>
      have label : labelled (token::read) = none := by
        cases read with
        | nil => rfl
        | cons last before =>
          rw [ended] at close
          split at close
          · rename_i both
            rw [labelled,if_neg (by simp [(identifier_kind (Bool.and_eq_true_iff.mp both).1).2.2])]
          · cases close
      rw [label]
      simp

theorem eventsFrom_ordered (read tokens : List Token) : (eventsFrom endsPeriod read tokens).Pairwise (fun a b => a.time < b.time) ∧
    ∀ event ∈ eventsFrom endsPeriod read tokens, read.length ≤ event.time := by
  induction tokens generalizing read with
  | nil => exact ⟨.nil,by simp [eventsFrom]⟩
  | cons token rest ih =>
    obtain ⟨ordered,later⟩ := ih (token::read)
    rw [eventsFrom]
    constructor
    · apply List.pairwise_append.mpr
      refine ⟨?_,ordered,?_⟩
      · have single := @eventsAt_single token read
        cases shape : eventsAt endsPeriod (token::read) with
        | nil => exact .nil
        | cons first others =>
          have alone : others = [] := by
            rw [shape,List.length_cons] at single
            exact List.eq_nil_of_length_eq_zero (by omega)
          rw [alone]
          exact List.pairwise_singleton _ _
      · intro a here b listed
        have before := eventsAt_time here
        have after := later b listed
        rw [List.length_cons] at after
        omega
    · intro event listed
      rcases List.mem_append.mp listed with here | listed
      · rw [eventsAt_time here]
      · have after := later event listed
        rw [List.length_cons] at after
        omega

theorem type_order {f : Text} {location : SourceLocation} {order : Nat} (listed : .type f location order ∈ eventsFrom endsPeriod read tokens) :
    2 ≤ order := by
  induction tokens generalizing read with
  | nil => cases listed
  | cons token rest ih =>
    rcases List.mem_append.mp listed with here | listed
    · rcases eventsAt_cases here with ⟨name,found,same⟩ | ⟨name,found,same⟩ | ⟨name,found,same⟩
      · have length := marked_length found
        cases same
        omega
      · cases same
      · cases same
    · exact ih listed

end Ordered

section Source
variable {token name : Token} {read tokens : List Token} {event : Event} {period : List Token → Bool}
variable (begins : ∀ read, period read = true → endsPeriod read = true)
include begins

theorem endsDirective_source {directive : Text} (ends : endsDirective period directive read = true) :
    endsDirective endsPeriod directive read = true := by
  cases read with
  | nil => cases ends
  | cons word before =>
    obtain ⟨text,dot⟩ := Bool.and_eq_true_iff.mp ends
    exact Bool.and_eq_true_iff.mpr ⟨text,begins before dot⟩

theorem typedName_source (found : typedName period read = some name) : typedName endsPeriod read = some name := by
  cases read with
  | nil => cases found
  | cons last before =>
    rw [typedName] at found
    split at found
    · rename_i both
      obtain ⟨named,ends⟩ := Bool.and_eq_true_iff.mp both
      rw [typedName,if_pos (Bool.and_eq_true_iff.mpr ⟨named,endsDirective_source begins ends⟩)]
      exact found
    · cases found

theorem typedComma_source (found : typedComma period read = some name) : typedComma endsPeriod read = some name := by
  cases read with
  | nil => cases found
  | cons last before =>
    rw [typedComma] at found
    split at found
    · rename_i separator
      rw [typedComma,if_pos separator]
      exact typedName_source begins found
    · cases found

theorem typedPrefix_source (found : typedPrefix period read = some name) : typedPrefix endsPeriod read = some name := by
  cases read with
  | nil => cases found
  | cons last before =>
    rw [typedPrefix] at found
    split at found
    · rename_i sign
      rw [typedPrefix,if_pos sign]
      exact typedComma_source begins found
    · cases found

theorem ended_source (found : ended period read = some name) : ended endsPeriod read = some name := by
  cases read with
  | nil => cases found
  | cons last before =>
    rw [ended] at found
    split at found
    · rename_i both
      obtain ⟨named,ends⟩ := Bool.and_eq_true_iff.mp both
      rw [ended,if_pos (Bool.and_eq_true_iff.mpr ⟨named,endsDirective_source begins ends⟩)]
      exact found
    · cases found

-- what marks a function in one spelling does in no other
theorem marked_source (found : marked period read = some name) : marked endsPeriod read = some name := by
  cases read with
  | nil => cases found
  | cons mark before =>
    rw [marked] at found
    split at found
    · rename_i both
      obtain ⟨named,ends⟩ := Bool.and_eq_true_iff.mp both
      rw [marked,if_pos (Bool.and_eq_true_iff.mpr ⟨named,endsDirective_source begins ends⟩)]
      exact found
    · split at found
      · rename_i both
        have comma := typedComma_source begins found
        have sign := (Bool.and_eq_true_iff.mp both).1
        have apart : endsDirective endsPeriod entWord before = false := by
          cases before with
          | nil => rfl
          | cons last rest =>
            rw [typedComma] at comma
            split at comma
            · rename_i kind
              simp [endsDirective,isWord,isIdentifier,kind]
            · cases comma
        rw [marked,apart,Bool.and_false,if_neg Bool.false_ne_true,comma,sign]
        rfl
      · split at found
        · rename_i text
          have sign := typedPrefix_source begins found
          have apart : endsDirective endsPeriod entWord before = false ∧ typedComma endsPeriod before = none := by
            cases before with
            | nil => cases sign
            | cons last rest =>
              rw [typedPrefix] at sign
              split at sign
              · rename_i mark
                have long : ∀ c : Char, [c] ≠ entWord := fun c same => by cases congrArg List.length same
                have word : last.text ≠ entWord := by
                  unfold isMarkerPrefix at mark
                  simp only [Bool.or_eq_true,decide_eq_true_eq] at mark
                  rcases mark with (text | text) | text <;> rw [text] <;> exact long _
                exact ⟨by simp [endsDirective,isWord,word],if_neg (prefix_marker mark).2.2⟩
              · cases sign
          rw [marked,apart.1,apart.2,Bool.and_false,if_neg Bool.false_ne_true,Option.isSome_none,Bool.and_false,
            if_neg Bool.false_ne_true,if_pos text]
          exact sign
        · cases found

theorem eventsAt_sublist (read : List Token) : (eventsAt period read).Sublist (eventsAt endsPeriod read) := by
  have each {α β : Type} {some' other : Option α} (make : α → β) (keeps : ∀ a, some' = some a → other = some a) :
      ((some'.map make).toList).Sublist (other.map make).toList := by
    cases found : some' with
    | none => exact List.nil_sublist _
    | some a =>
      rw [keeps a found]
  exact ((each _ (fun _ => marked_source begins)).append (each _ (fun _ => ended_source begins))).append (List.Sublist.refl _)

theorem eventsFrom_sublist (read tokens : List Token) : (eventsFrom period read tokens).Sublist (eventsFrom endsPeriod read tokens) := by
  induction tokens generalizing read with
  | nil => exact List.Sublist.refl _
  | cons token rest ih => exact (eventsAt_sublist begins _).append (ih _)

end Source

section Labels
variable {f : Text} {location : SourceLocation} {order : Nat} (period other : List Token → Bool)

-- labels are told by what begins no directive
theorem eventsAt_label {read : List Token} (listed : Event.label f location order ∈ eventsAt period read) :
    Event.label f location order ∈ eventsAt other read := by
  unfold eventsAt at listed ⊢
  rcases List.mem_append.mp listed with front | label
  · simp at front
  · exact List.mem_append_right _ label

theorem eventsFrom_label {read tokens : List Token} (listed : Event.label f location order ∈ eventsFrom period read tokens) :
    Event.label f location order ∈ eventsFrom other read tokens := by
  induction tokens generalizing read with
  | nil => cases listed
  | cons token rest ih =>
    rcases List.mem_append.mp listed with here | later
    · exact List.mem_append_left _ (eventsAt_label period other here)
    · exact List.mem_append_right _ (ih later)

end Labels

section Follow
variable {indexer : Indexer} {events : List Event} {known : FunctionTable} {f g : Text} {location : SourceLocation} {order : Nat}

/-- The end of a function with these orders of its marker, its label and its `.end`. -/
def lastOrder (marker label : Nat) (last : Option Nat) : Nat :=
  match last with
  | some last => if marker < last ∧ label < last then last else if label < marker then marker else 0
  | none => if label < marker then marker else 0

def functionOf (events : List Event) (f : Text) : Option Function :=
  match firstType events f,firstLabel events f with
  | some type,some label => some ⟨f,label.order,lastOrder type.order label.order (closing events f)⟩
  | _,_ => none

/-- The table is what the events tell. -/
structure Follows (indexer : Indexer) (events : List Event) (known : FunctionTable) : Prop where
  types : ∀ f, known.functionTypes.lookup f = firstType events f
  labels : ∀ f, known.labels.lookup f = firstLabel events f
  emitted : known.emitted = known.functions.map Function.name
  nodup : (known.functions.map Function.name).Nodup
  functions : ∀ function, function ∈ known.functions ↔ functionOf events function.name = some function
  items : known.items = known.functions.map (fun function =>
    indexer.assemblyFunction function.name (labelLocation events function.name))

/-- The event is later than the others, and none of a marked function comes twice. -/
structure Fresh (isMarked : Text → Prop) (events : List Event) (event : Event) : Prop where
  later : ∀ other ∈ events, other.time < event.time
  type : ∀ f, event.isType f = true → isMarked f ∧ firstType events f = none
  label : ∀ f, event.isLabel f = true → isMarked f → firstLabel events f = none
  close : ∀ f, event.isClose f = true → isMarked f → closing events f = none

theorem emplace_lookup (table : Table Text Marker) (name : Text) (marker : Marker) (f : Text) :
    (emplace table name marker).lookup f = (table.lookup f).or (if name = f then some marker else none) := by
  unfold emplace
  by_cases same : name = f
  · subst same
    cases found : table.lookup name with
    | none => simp
    | some stored => simp [found]
  · split_ifs with taken
    · simp
    · rw [AList.lookup_insert_ne (Ne.symm same)]
      simp

theorem functionOf_some {function : Function} (found : functionOf events f = some function) :
    ∃ type label, firstType events f = some type ∧ firstLabel events f = some label ∧
      function = ⟨f,label.order,lastOrder type.order label.order (closing events f)⟩ := by
  unfold functionOf at found
  split at found
  · rename_i type label typed labelled
    exact ⟨type,label,typed,labelled,(Option.some.inj found).symm⟩
  · cases found

theorem mem_names (follows : Follows indexer events known) : f ∈ known.functions.map Function.name ↔ (functionOf events f).isSome := by
  rw [List.mem_map,Option.isSome_iff_exists]
  constructor
  · intro ⟨function,listed,named⟩
    rw [← named]
    exact ⟨function,(follows.functions function).mp listed⟩
  · intro ⟨function,found⟩
    have named : function.name = f := by
      obtain ⟨_,_,_,_,rfl⟩ := functionOf_some found
      rfl
    exact ⟨function,(follows.functions function).mpr (named.symm ▸ found),named⟩

theorem follows_start : Follows indexer [] {} :=
  ⟨fun _ => rfl,fun _ => rfl,rfl,.nil,by simp [functionOf,firstType],rfl⟩

/-- A function stays where its first label is. -/
theorem Follows.located (follows : Follows indexer events known) (more : List Event) :
    known.functions.map (fun function => indexer.assemblyFunction function.name (labelLocation events function.name)) =
      known.functions.map (fun function => indexer.assemblyFunction function.name (labelLocation (events ++ more) function.name)) := by
  apply List.map_congr_left
  intro other listed
  obtain ⟨type,label,_,labelled,_⟩ := functionOf_some ((follows.functions other).mp listed)
  unfold labelLocation
  rw [firstLabel_append,labelled]
  rfl

-- a function that gets its second half joins the others
theorem Follows.join (follows : Follows indexer events known) {more : List Event} {next : FunctionTable} {function : Function}
    (types : ∀ f, next.functionTypes.lookup f = firstType (events ++ more) f)
    (labels : ∀ f, next.labels.lookup f = firstLabel (events ++ more) f)
    (emitted : next.emitted = known.emitted ++ [function.name]) (functions : next.functions = known.functions ++ [function])
    (items : next.items = known.items ++ [indexer.assemblyFunction function.name (labelLocation (events ++ more) function.name)])
    (fresh : functionOf events function.name = none) (found : functionOf (events ++ more) function.name = some function)
    (others : ∀ f, f ≠ function.name → functionOf (events ++ more) f = functionOf events f) : Follows indexer (events ++ more) next := by
  have new : function.name ∉ known.functions.map Function.name := by
    rw [mem_names follows,fresh]
    simp
  refine ⟨types,labels,?_,?_,?_,?_⟩
  · rw [emitted,functions,follows.emitted,List.map_append]
    rfl
  · rw [functions,List.map_append]
    exact List.Nodup.append follows.nodup (List.nodup_singleton _) (by simpa using new)
  · intro other
    rw [functions,List.mem_append,List.mem_singleton]
    by_cases same : other.name = function.name
    · rw [same,found]
      constructor
      · intro listed
        rcases listed with before | rfl
        · exact absurd (same ▸ List.mem_map_of_mem before) new
        · rfl
      · intro equal
        exact .inr (Option.some.inj equal).symm
    · rw [others _ same,← follows.functions other]
      refine ⟨fun listed => listed.resolve_right (fun equal => same (equal ▸ rfl)),.inl⟩
  · rw [items,functions,follows.items,List.map_append]
    congr 1
    exact follows.located more

-- or nothing becomes of it yet
theorem Follows.keep (follows : Follows indexer events known) {more : List Event} {next : FunctionTable}
    (types : ∀ f, next.functionTypes.lookup f = firstType (events ++ more) f)
    (labels : ∀ f, next.labels.lookup f = firstLabel (events ++ more) f)
    (same : next.emitted = known.emitted ∧ next.functions = known.functions ∧ next.items = known.items)
    (others : ∀ f, functionOf (events ++ more) f = functionOf events f) : Follows indexer (events ++ more) next := by
  obtain ⟨emitted,functions,items⟩ := same
  refine ⟨types,labels,?_,?_,?_,?_⟩
  · rw [emitted,functions,follows.emitted]
  · rw [functions]
    exact follows.nodup
  · intro function
    rw [functions,others,follows.functions]
  · rw [items,functions,follows.items]
    exact follows.located more

theorem firstType_single (event : Event) (g : Text) : firstType [event] g =
    match event with
    | .type f location order => if f = g then some ⟨location,order⟩ else none
    | _ => none := by
  cases event with
  | type f location order => by_cases same : f = g <;> simp [firstType,same]
  | close f order => rfl
  | label f location order => rfl

theorem firstLabel_single (event : Event) (g : Text) : firstLabel [event] g =
    match event with
    | .label f location order => if f = g then some ⟨location,order⟩ else none
    | _ => none := by
  cases event with
  | label f location order => by_cases same : f = g <;> simp [firstLabel,same]
  | close f order => rfl
  | type f location order => rfl

theorem closing_single (event : Event) (g : Text) : closing [event] g =
    match event with
    | .close f order => if f = g then some order else none
    | _ => none := by
  cases event with
  | close f order => by_cases same : f = g <;> simp [closing,same]
  | label f location order => rfl
  | type f location order => rfl

-- an event about one function is none about another
theorem functionOf_other {event : Event} (apart : event.isType g = false ∧ event.isLabel g = false ∧ event.isClose g = false) :
    functionOf (events ++ [event]) g = functionOf events g := by
  unfold functionOf
  rw [firstType_append,firstLabel_append,closing_append,firstType_single,firstLabel_single,closing_single]
  cases event with
  | type f location order =>
    have differs : f ≠ g := by simpa [Event.isType] using apart.1
    simp [differs]
  | label f location order =>
    have differs : f ≠ g := by simpa [Event.isLabel] using apart.2.1
    simp [differs]
  | close f order =>
    have differs : f ≠ g := by simpa [Event.isClose] using apart.2.2
    simp [differs]

variable {isMarked : Text → Prop}

theorem Follows.type (follows : Follows indexer events known) (fresh : Fresh isMarked events (.type f location order)) :
    Follows indexer (events ++ [.type f location order]) (known.addFunctionType indexer f location order) := by
  have missing := (fresh.type f (by simp [Event.isType])).2
  have others (g : Text) (differs : g ≠ f) : functionOf (events ++ [.type f location order]) g = functionOf events g :=
    functionOf_other ⟨by simp [Event.isType,Ne.symm differs],rfl,rfl⟩
  have none : functionOf events f = none := by simp [functionOf,missing]
  have types (g : Text) : (emplace known.functionTypes f ⟨location,order⟩).lookup g =
      firstType (events ++ [.type f location order]) g := by
    rw [emplace_lookup,follows.types,firstType_append,firstType_single]
  have labels (g : Text) : known.labels.lookup g = firstLabel (events ++ [.type f location order]) g := by
    rw [follows.labels,firstLabel_append,firstLabel_single,Option.or_none]
  have typed : firstType (events ++ [.type f location order]) f = some ⟨location,order⟩ := by
    rw [firstType_append,missing,firstType_single]
    simp
  unfold FunctionTable.addFunctionType FunctionTable.tryAddFunction
  dsimp only
  rw [types,typed,labels]
  cases found : firstLabel (events ++ [.type f location order]) f with
  | none =>
    refine follows.keep types labels ⟨rfl,rfl,rfl⟩ (fun g => ?_)
    by_cases same : g = f
    · rw [same,none]
      simp [functionOf,typed,found]
    · exact others g same
  | some label =>
    have new : f ∉ known.emitted := by
      rw [follows.emitted,mem_names follows,none]
      simp
    dsimp only
    rw [if_neg new]
    have ends : lastOrder order label.order (closing (events ++ [.type f location order]) f) =
        if label.order < order then order else 0 := by
      rw [closing_append,closing_single,Option.or_none]
      cases close : closing events f with
      | none => rfl
      | some last =>
        have before := fresh.later _ (closing_mem close)
        exact if_neg (fun both => Nat.lt_asymm both.1 before)
    refine follows.join types labels rfl rfl ?_ none ?_ others
    · simp [labelLocation,found]
    · simp [functionOf,typed,found,ends]

theorem Follows.label (follows : Follows indexer events known) (fresh : Fresh isMarked events (.label f location order))
    (only : ∀ g, (firstType events g).isSome → isMarked g) :
    Follows indexer (events ++ [.label f location order]) (known.addLabel indexer f location order) := by
  have others (g : Text) (differs : g ≠ f) : functionOf (events ++ [.label f location order]) g = functionOf events g :=
    functionOf_other ⟨rfl,by simp [Event.isLabel,Ne.symm differs],rfl⟩
  have types (g : Text) : known.functionTypes.lookup g = firstType (events ++ [.label f location order]) g := by
    rw [follows.types,firstType_append,firstType_single,Option.or_none]
  have labels (g : Text) : (emplace known.labels f ⟨location,order⟩).lookup g =
      firstLabel (events ++ [.label f location order]) g := by
    rw [emplace_lookup,follows.labels,firstLabel_append,firstLabel_single]
  have kept : firstType (events ++ [.label f location order]) f = firstType events f := by
    rw [firstType_append,firstType_single,Option.or_none]
  unfold FunctionTable.addLabel FunctionTable.tryAddFunction
  dsimp only
  rw [types,labels,kept]
  cases typed : firstType events f with
  | none =>
    refine follows.keep types labels ⟨rfl,rfl,rfl⟩ (fun g => ?_)
    by_cases same : g = f
    · rw [same]
      simp [functionOf,kept,typed]
    · exact others g same
  | some type =>
    have missing := fresh.label f (by simp [Event.isLabel]) (only f (by rw [typed]; rfl))
    have none : functionOf events f = none := by simp [functionOf,typed,missing]
    have found : firstLabel (events ++ [.label f location order]) f = some ⟨location,order⟩ := by
      rw [firstLabel_append,missing,firstLabel_single]
      simp
    have new : f ∉ known.emitted := by
      rw [follows.emitted,mem_names follows,none]
      simp
    rw [found]
    dsimp only
    rw [if_neg new]
    have ends : lastOrder type.order order (closing (events ++ [.label f location order]) f) =
        if order < type.order then type.order else 0 := by
      rw [closing_append,closing_single,Option.or_none]
      cases close : closing events f with
      | none => rfl
      | some last =>
        have before := fresh.later _ (closing_mem close)
        rw [Event.time,Event.time] at before
        exact if_neg (fun both => by omega)
    refine follows.join types labels rfl rfl ?_ none ?_ others
    · simp [labelLocation,found]
    · simp [functionOf,kept,typed,found,ends]

theorem Follows.close (follows : Follows indexer events known) (fresh : Fresh isMarked events (.close f order))
    (only : ∀ g, (firstType events g).isSome → isMarked g) :
    Follows indexer (events ++ [.close f order]) (known.endFunction f order) := by
  have kept (g : Text) : firstType (events ++ [.close f order]) g = firstType events g ∧
      firstLabel (events ++ [.close f order]) g = firstLabel events g := by
    rw [firstType_append,firstType_single,firstLabel_append,firstLabel_single]
    exact ⟨Option.or_none,Option.or_none⟩
  have others (g : Text) (differs : g ≠ f) : functionOf (events ++ [.close f order]) g = functionOf events g :=
    functionOf_other ⟨rfl,rfl,by simp [Event.isClose,Ne.symm differs]⟩
  have names : (known.endFunction f order).functions.map Function.name = known.functions.map Function.name := by
    unfold FunctionTable.endFunction
    rw [List.map_map]
    apply List.map_congr_left
    intro function _
    dsimp only [Function.comp]
    split_ifs <;> rfl
  have locations (g : Text) : labelLocation (events ++ [.close f order]) g = labelLocation events g := by
    unfold labelLocation
    rw [(kept g).2]
  refine ⟨fun g => (follows.types g).trans (kept g).1.symm,fun g => (follows.labels g).trans (kept g).2.symm,?_,?_,?_,?_⟩
  · rw [names]
    exact follows.emitted
  · rw [names]
    exact follows.nodup
  · intro function
    unfold FunctionTable.endFunction
    dsimp only
    rw [List.mem_map]
    by_cases named : function.name = f
    · rw [named]
      constructor
      · intro ⟨before,listed,same⟩
        have own : before.name = f := by
          rw [← named,← same]
          split_ifs <;> rfl
        obtain ⟨type,label,typed,labelled,shape⟩ := functionOf_some (own ▸ (follows.functions before).mp listed)
        have missing := fresh.close f (by simp [Event.isClose]) (only f (by rw [typed]; rfl))
        have typeBefore := fresh.later _ (firstType_mem typed)
        have labelBefore := fresh.later _ (firstLabel_mem labelled)
        simp only [Event.time] at typeBefore labelBefore
        rw [if_pos own,shape] at same
        unfold functionOf
        rw [(kept f).1,(kept f).2,typed,labelled,closing_append,missing,closing_single,← same]
        simp [lastOrder,typeBefore,Nat.lt_of_succ_lt labelBefore]
      · intro found
        obtain ⟨type,label,typed,labelled,shape⟩ := functionOf_some found
        rw [(kept f).1] at typed
        rw [(kept f).2] at labelled
        have missing := fresh.close f (by simp [Event.isClose]) (only f (by rw [typed]; rfl))
        have typeBefore := fresh.later _ (firstType_mem typed)
        have labelBefore := fresh.later _ (firstLabel_mem labelled)
        simp only [Event.time] at typeBefore labelBefore
        refine ⟨⟨f,label.order,lastOrder type.order label.order (closing events f)⟩,?_,?_⟩
        · rw [follows.functions]
          simp [functionOf,typed,labelled]
        · rw [shape,closing_append,missing,closing_single]
          simp [lastOrder,typeBefore,Nat.lt_of_succ_lt labelBefore]
    · rw [others function.name named,← follows.functions]
      constructor
      · intro ⟨before,listed,same⟩
        have apart : before.name ≠ f := by
          intro own
          rw [if_pos own] at same
          exact named (by rw [← same]; exact own)
        rw [if_neg apart] at same
        rw [← same]
        exact listed
      · intro listed
        exact ⟨function,listed,if_neg named⟩
  · have same : (known.endFunction f order).items = known.items := rfl
    rw [same,follows.items]
    have byName (functions : List Function) : functions.map (fun function =>
        indexer.assemblyFunction function.name (labelLocation events function.name)) =
        (functions.map Function.name).map (fun name => indexer.assemblyFunction name (labelLocation events name)) := by
      rw [List.map_map]
      rfl
    simp only [locations]
    rw [byName,byName,names]

/-- The events come in order, and those of a marked function once. -/
structure Told (isMarked : Text → Prop) (events : List Event) : Prop where
  ordered : events.Pairwise (fun a b => a.time < b.time)
  only : ∀ f, (firstType events f).isSome → isMarked f
  once : ∀ f, isMarked f → events.countP (Event.isType f) ≤ 1 ∧ events.countP (Event.isLabel f) ≤ 1 ∧
    events.countP (Event.isClose f) ≤ 1

theorem countP_fresh {property : Event → Bool} {event : Event} (once : (events ++ [event]).countP property ≤ 1)
    (holds : property event = true) : ∀ other ∈ events, property other = false := by
  rw [List.countP_append,List.countP_singleton,if_pos holds] at once
  have none : events.countP property = 0 := by omega
  intro other listed
  by_contra same
  exact (List.countP_eq_zero.mp none) other listed (Bool.eq_true_of_not_eq_false same)

theorem Told.fresh {event : Event} (told : Told isMarked (events ++ [event])) : Fresh isMarked events event := by
  refine ⟨?_,?_,?_,?_⟩
  · intro other listed
    exact (List.pairwise_append.mp told.ordered).2.2 other listed event (List.mem_singleton.mpr rfl)
  · intro f type
    have mine : isMarked f := by
      apply told.only
      cases event with
      | type name location order =>
        have same : name = f := by simpa [Event.isType] using type
        rw [firstType_append,firstType_single]
        cases firstType events f <;> simp [same]
      | close name order => cases type
      | label name location order => cases type
    refine ⟨mine,?_⟩
    cases found : firstType events f with
    | none => rfl
    | some marker =>
      have other := countP_fresh (told.once f mine).1 type _ (firstType_mem found)
      simp [Event.isType] at other
  · intro f label mine
    cases found : firstLabel events f with
    | none => rfl
    | some marker =>
      have other := countP_fresh (told.once f mine).2.1 label _ (firstLabel_mem found)
      simp [Event.isLabel] at other
  · intro f close mine
    cases found : closing events f with
    | none => rfl
    | some last =>
      have other := countP_fresh (told.once f mine).2.2 close _ (closing_mem found)
      simp [Event.isClose] at other

theorem Told.before {event : Event} (told : Told isMarked (events ++ [event])) : Told isMarked events := by
  refine ⟨(List.pairwise_append.mp told.ordered).1,?_,?_⟩
  · intro f found
    apply told.only
    rw [firstType_append]
    cases shape : firstType events f with
    | none =>
      rw [shape] at found
      cases found
    | some marker => rfl
  · intro f mine
    obtain ⟨type,label,close⟩ := told.once f mine
    rw [List.countP_append] at type label close
    exact ⟨by omega,by omega,by omega⟩

/-- The table of a source is what its events tell. -/
theorem follows_all (told : Told isMarked events) : Follows indexer events (events.foldl (FunctionTable.apply indexer) {}) := by
  induction events using List.reverseRecOn with
  | nil => exact follows_start
  | append_singleton events event ih =>
    have follows := ih told.before
    have fresh := told.fresh
    rw [List.foldl_append,List.foldl_cons,List.foldl_nil]
    cases event with
    | type f location order => exact follows.type fresh
    | label f location order => exact follows.label fresh told.before.only
    | close f order => exact follows.close fresh told.before.only

end Follow

end Semindex.Parser.Asm
