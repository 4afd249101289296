import Mathlib.Data.Finset.Max
import Semindex.Parser.AsmCalls
import Semindex.Parser.AsmFunctions

/-! Which calls of an assembly source are attributed to which function. A function
reaches from its label to the label of the next one, or to its `.end`. -/
namespace Semindex.Parser.Asm
open Semindex.Relational

section Body
variable (events : List Event) (f : Text)

/-- Between the label of `f` and the label of the next function. -/
def inRegion (order : Nat) : Bool :=
  labelOrder events f ≤ order &&
    (markedNames events).all (fun g => !(labelOrder events f < labelOrder events g) || order < labelOrder events g)

/-- The tokens of `f`, up to its end or to the label of the next function. -/
def inBody (order : Nat) : Bool :=
  match closing events f with
  | some last => labelOrder events f ≤ order && order ≤ last
  | none => inRegion events f order

def bodyOf (order : Nat) : Option Text := (markedNames events).find? (fun f => inBody events f order)

/-- A source that marks each of its functions once, labels it once, and ends it at
most once; markers behind the label, and ends, stand before the next function. -/
structure WellMarked (tokens : List Token) : Prop where
  counted : tokens.length ≤ maxOrder
  once : ∀ f ∈ markedNames (eventsOf tokens), (eventsOf tokens).countP (Event.isType f) = 1
  labelled : ∀ f ∈ markedNames (eventsOf tokens), (eventsOf tokens).countP (Event.isLabel f) = 1
  ended : ∀ f ∈ markedNames (eventsOf tokens), (eventsOf tokens).countP (Event.isClose f) ≤ 1
  within : ∀ f ∈ markedNames (eventsOf tokens), ∀ g ∈ markedNames (eventsOf tokens),
    labelOrder (eventsOf tokens) f < labelOrder (eventsOf tokens) g →
      labelOrder (eventsOf tokens) f < markerOrder (eventsOf tokens) f →
      markerOrder (eventsOf tokens) f < labelOrder (eventsOf tokens) g
  closed : ∀ f ∈ markedNames (eventsOf tokens), ∀ last ∈ closing (eventsOf tokens) f,
    labelOrder (eventsOf tokens) f < last ∧ ∀ g ∈ markedNames (eventsOf tokens),
      labelOrder (eventsOf tokens) f < labelOrder (eventsOf tokens) g → last < labelOrder (eventsOf tokens) g

end Body

section Attribution
variable (indexer : Indexer) (tokens : List Token)

/-- The items of these functions, and of the calls that have a function. -/
def emissions (names : List Text) (functionOf : Call → Option Text) : List Emission :=
  names.map (fun f => indexer.assemblyFunction f (labelLocation (eventsOf tokens) f)) ++
    (observeAll indexer tokens).callObserver.calls.filterMap (fun call =>
      (functionOf call).map (fun f => indexer.assemblyCall call.target f call.location))

/-- Each marked function is emitted once, each call in a body once with its function, and no other call. -/
structure Attributed : Prop where
  emitted : ∃ names : List Text, names.Nodup ∧ (∀ f, f ∈ names ↔ f ∈ markedNames (eventsOf tokens)) ∧
    ((observeAll indexer tokens).finish indexer).functionTable.items =
      emissions indexer tokens names (fun call => bodyOf (eventsOf tokens) call.order)
  sentinel : ∀ function ∈ (observeAll indexer tokens).functionTable.functions,
    (function.last = 0 ↔ markerOrder (eventsOf tokens) function.name ≤ labelOrder (eventsOf tokens) function.name ∧
      closing (heardOf tokens) function.name = none) ∧ (function.last < function.first ↔ function.last = 0)

/-- With an end that is heard of behind its marker, a function has what is before it; with none,
and a marker behind its label, what is before the marker. -/
def Enclosed (marker label : Nat) (last heard : Option Nat) (order : Nat) : Prop :=
  (∃ close ∈ heard, marker < close) ∨ ((∀ close ∈ last, order ≤ close) ↔ (label < marker → order ≤ marker))

instance (marker label : Nat) (last heard : Option Nat) (order : Nat) : Decidable (Enclosed marker label last heard order) :=
  inferInstanceAs (Decidable (_ ∨ _))

/-- No directive is lost with a marker, and where markers stand no function loses a call or gets one behind its end. -/
structure Embraced (tokens : List Token) (calls : List Call) : Prop where
  heard : ∀ f ∈ markedNames (eventsOf tokens), f ∈ markedNames (heardOf tokens)
  enclosed : ∀ f ∈ markedNames (eventsOf tokens), ∀ call ∈ calls, inRegion (eventsOf tokens) f call.order = true →
    Enclosed (markerOrder (eventsOf tokens) f) (labelOrder (eventsOf tokens) f) (closing (eventsOf tokens) f)
      (closing (heardOf tokens) f) call.order

end Attribution

section Intervals
variable {call : Call} {function other : Function} {functions rest : List Function}

-- sorted functions end before the next one begins, unless their end is to be repaired
def Successive (functions : List Function) : Prop :=
  functions.Pairwise (fun left right => left.first < right.first ∧ (left.last < left.first ∨ left.last < right.first))

theorem repairEnds_cons : ∃ last, repairEnds (function::rest) = {function with last}::repairEnds rest ∧
    ((function.last < function.first ∧ ∀ order ≤ maxOrder, (∀ other ∈ rest, order < other.first) → order ≤ last) ∨
      (function.first ≤ function.last ∧ last = function.last)) ∧
    (Successive (function::rest) → ∀ other ∈ rest, last ≤ other.first) := by
  by_cases open' : function.last < function.first
  · cases rest with
    | nil =>
      refine ⟨maxOrder,?_,.inl ⟨open',fun order small _ => small⟩,fun _ _ listed => by cases listed⟩
      simp [repairEnds,open']
    | cons next rest =>
      refine ⟨next.first,?_,.inl ⟨open',fun order _ before => Nat.le_of_lt (before next List.mem_cons_self)⟩,?_⟩
      · simp [repairEnds,open']
      · intro successive other listed
        rcases List.mem_cons.mp listed with rfl | listed
        · exact Nat.le_refl _
        · have sorted := (List.pairwise_cons.mp successive).2
          exact Nat.le_of_lt ((List.pairwise_cons.mp sorted).1 other listed).1
  · refine ⟨function.last,?_,.inr ⟨Nat.not_lt.mp open',rfl⟩,?_⟩
    · exact congrArg (·::repairEnds rest) (if_neg open')
    · intro successive other listed
      have apart := ((List.pairwise_cons.mp successive).1 other listed).2
      exact Nat.le_of_lt (apart.resolve_left open')

-- a function that begins behind the call has it not
theorem containing_later (later : ∀ function ∈ functions, call.order < function.first) (result : Option Function) :
    containingFunction call (repairEnds functions) result = result := by
  cases functions with
  | nil => rfl
  | cons function rest =>
    obtain ⟨last,shape,_⟩ := @repairEnds_cons function rest
    rw [shape,containingFunction]
    exact if_pos (later function List.mem_cons_self)

/-- Of sorted functions the last one that begins before the call has it, if its end is repaired or behind the call. -/
theorem containing_spec (successive : Successive functions) (small : call.order ≤ maxOrder) (listed : function ∈ functions)
    (begun : function.first ≤ call.order)
    (latest : ∀ other ∈ functions, function.first < other.first → call.order < other.first) (result : Option Function) :
    (containingFunction call (repairEnds functions) result).map Function.name =
      if function.last < function.first ∨ call.order ≤ function.last then some function.name else result.map Function.name := by
  induction functions generalizing result with
  | nil => cases listed
  | cons head rest ih =>
    obtain ⟨last,shape,ends,below⟩ := @repairEnds_cons head rest
    obtain ⟨ahead,sorted⟩ := List.pairwise_cons.mp successive
    rw [shape,containingFunction]
    rcases List.mem_cons.mp listed with rfl | listed
    · have later : ∀ other ∈ rest, call.order < other.first := fun other member =>
        latest other (List.mem_cons_of_mem _ member) (ahead other member).1
      rw [if_neg (Nat.not_lt.mpr begun),containing_later later]
      have covers : call.order ≤ last ↔ function.last < function.first ∨ call.order ≤ function.last := by
        rcases ends with ⟨open',reach⟩ | ⟨closed,rfl⟩
        · exact ⟨fun _ => .inl open',fun _ => reach _ small later⟩
        · exact ⟨.inr,fun either => either.resolve_left (Nat.not_lt.mpr closed)⟩
      by_cases inside : call.order ≤ last
      · rw [if_pos inside,if_pos (covers.mp inside)]
        rfl
      · rw [if_neg inside,if_neg (fun either => inside (covers.mpr either))]
    · have first := (ahead function listed).1
      rw [if_neg (by simp only; omega),ih sorted listed (fun other member => latest other (List.mem_cons_of_mem _ member))]
      by_cases covers : function.last < function.first ∨ call.order ≤ function.last
      · rw [if_pos covers,if_pos covers]
      · rw [if_neg covers,if_neg covers]
        have outside : ¬call.order ≤ last := by
          have reach := below successive function listed
          omega
        rw [if_neg outside]

end Intervals

section Marked
variable {indexer : Indexer} {tokens : List Token} {f g : Text} {function : Function}

theorem heard_sublist (tokens : List Token) : (heardOf tokens).Sublist (eventsOf tokens) :=
  eventsFrom_sublist (fun _ => opens_period) [] tokens

theorem heard_marked (heard : f ∈ markedNames (heardOf tokens)) : f ∈ markedNames (eventsOf tokens) :=
  ((heard_sublist tokens).filterMap _).subset heard

theorem WellMarked.told (well : WellMarked tokens) : Told (· ∈ markedNames (eventsOf tokens)) (eventsOf tokens) :=
  ⟨(eventsFrom_ordered [] tokens).1,fun _ => mem_markedNames.mpr,fun f mine =>
    ⟨Nat.le_of_eq (well.once f mine),Nat.le_of_eq (well.labelled f mine),well.ended f mine⟩⟩

theorem WellMarked.toldHeard (well : WellMarked tokens) : Told (· ∈ markedNames (eventsOf tokens)) (heardOf tokens) := by
  have fewer := heard_sublist tokens
  refine ⟨well.told.ordered.sublist fewer,fun f found => heard_marked (mem_markedNames.mpr found),fun f mine => ?_⟩
  obtain ⟨type,label,close⟩ := well.told.once f mine
  exact ⟨(fewer.countP_le).trans type,(fewer.countP_le).trans label,(fewer.countP_le).trans close⟩

theorem countP_unique {property : Event → Bool} {events : List Event} {a b : Event} (once : events.countP property ≤ 1)
    (left : a ∈ events ∧ property a = true) (right : b ∈ events ∧ property b = true) : a = b := by
  rw [List.countP_eq_length_filter] at once
  have one := List.mem_filter.mpr left
  have other := List.mem_filter.mpr right
  match shape : events.filter property with
  | [] =>
    rw [shape] at one
    cases one
  | [event] =>
    rw [shape] at one other
    rw [List.mem_singleton.mp one,List.mem_singleton.mp other]
  | _::_::_ =>
    rw [shape] at once
    simp at once

theorem WellMarked.type_heard (well : WellMarked tokens) (heard : f ∈ markedNames (heardOf tokens)) :
    firstType (heardOf tokens) f = firstType (eventsOf tokens) f := by
  have mine := heard_marked heard
  obtain ⟨marker,found⟩ := Option.isSome_iff_exists.mp (mem_markedNames.mp heard)
  obtain ⟨first,source⟩ := Option.isSome_iff_exists.mp (mem_markedNames.mp mine)
  have same := countP_unique (well.told.once f mine).1 ⟨(heard_sublist tokens).subset (firstType_mem found),by simp [Event.isType]⟩
    ⟨firstType_mem source,by simp [Event.isType]⟩
  rw [found,source]
  cases marker
  cases first
  cases same
  rfl

theorem WellMarked.closing_heard (well : WellMarked tokens) (mine : f ∈ markedNames (eventsOf tokens)) {last : Nat}
    (heard : closing (heardOf tokens) f = some last) : closing (eventsOf tokens) f = some last := by
  have listed := (heard_sublist tokens).subset (closing_mem heard)
  cases found : closing (eventsOf tokens) f with
  | none =>
    unfold closing at found
    have none := List.findSome?_eq_none_iff.mp found _ listed
    simp at none
  | some other =>
    have same := countP_unique (well.told.once f mine).2.2 ⟨listed,by simp [Event.isClose]⟩
      ⟨closing_mem found,by simp [Event.isClose]⟩
    cases same
    rfl

theorem WellMarked.label (well : WellMarked tokens) (mine : f ∈ markedNames (eventsOf tokens)) :
    firstLabel (eventsOf tokens) f = some ⟨labelLocation (eventsOf tokens) f,labelOrder (eventsOf tokens) f⟩ := by
  have present : 0 < (eventsOf tokens).countP (Event.isLabel f) := by
    rw [well.labelled f mine]
    exact Nat.one_pos
  obtain ⟨event,listed,label⟩ := List.countP_pos_iff.mp present
  unfold labelLocation labelOrder
  cases found : firstLabel (eventsOf tokens) f with
  | none =>
    unfold firstLabel at found
    have none := List.findSome?_eq_none_iff.mp found _ listed
    cases event with
    | label name location order =>
      have named : name = f := by simpa [Event.isLabel] using label
      simp [named] at none
    | close name order => cases label
    | type name location order => cases label
  | some marker => rfl

theorem WellMarked.label_heard (well : WellMarked tokens) (mine : f ∈ markedNames (eventsOf tokens)) :
    firstLabel (heardOf tokens) f = some ⟨labelLocation (eventsOf tokens) f,labelOrder (eventsOf tokens) f⟩ := by
  have listed : Event.label f (labelLocation (eventsOf tokens) f) (labelOrder (eventsOf tokens) f) ∈ heardOf tokens :=
    eventsFrom_label endsPeriod opens (firstLabel_mem (well.label mine))
  cases found : firstLabel (heardOf tokens) f with
  | none =>
    unfold firstLabel at found
    have none := List.findSome?_eq_none_iff.mp found _ listed
    simp at none
  | some marker =>
    have same := countP_unique (well.toldHeard.once f mine).2.1 ⟨firstLabel_mem found,by simp [Event.isLabel]⟩
      ⟨listed,by simp [Event.isLabel]⟩
    cases marker
    cases same
    rfl

/-- What becomes of a marked function. -/
def functionFor (tokens : List Token) (f : Text) : Function :=
  ⟨f,labelOrder (eventsOf tokens) f,
    lastOrder (markerOrder (eventsOf tokens) f) (labelOrder (eventsOf tokens) f) (closing (heardOf tokens) f)⟩

theorem WellMarked.follows (well : WellMarked tokens) : Follows indexer (heardOf tokens) (observeAll indexer tokens).functionTable := by
  rw [observeAll_events]
  exact follows_all well.toldHeard

theorem WellMarked.functionOf_heard (well : WellMarked tokens) (heard : f ∈ markedNames (heardOf tokens)) :
    functionOf (heardOf tokens) f = some (functionFor tokens f) := by
  have typed := well.type_heard heard
  obtain ⟨marker,found⟩ := Option.isSome_iff_exists.mp (mem_markedNames.mp heard)
  have order : markerOrder (eventsOf tokens) f = marker.order := by
    unfold markerOrder
    rw [← typed,found]
    rfl
  unfold functionOf functionFor
  rw [found,well.label_heard (heard_marked heard),order]

theorem WellMarked.functions (well : WellMarked tokens) : function ∈ (observeAll indexer tokens).functionTable.functions ↔
    function.name ∈ markedNames (heardOf tokens) ∧ function = functionFor tokens function.name := by
  rw [(@WellMarked.follows indexer tokens well).functions]
  constructor
  · intro found
    obtain ⟨type,label,typed,_⟩ := functionOf_some found
    have heard : function.name ∈ markedNames (heardOf tokens) := mem_markedNames.mpr (by rw [typed]; rfl)
    rw [well.functionOf_heard heard] at found
    exact ⟨heard,(Option.some.inj found).symm⟩
  · intro ⟨heard,same⟩
    rw [well.functionOf_heard heard,← same]

theorem WellMarked.names (well : WellMarked tokens) :
    f ∈ (observeAll indexer tokens).functionTable.functions.map Function.name ↔ f ∈ markedNames (heardOf tokens) := by
  rw [List.mem_map]
  constructor
  · intro ⟨function,listed,named⟩
    exact named ▸ (well.functions.mp listed).1
  · intro heard
    exact ⟨functionFor tokens f,well.functions.mpr ⟨heard,rfl⟩,rfl⟩

-- two functions have not one label
theorem WellMarked.apart (well : WellMarked tokens) (mine : f ∈ markedNames (eventsOf tokens))
    (other : g ∈ markedNames (eventsOf tokens)) (same : labelOrder (eventsOf tokens) f = labelOrder (eventsOf tokens) g) : f = g := by
  have times : ((eventsOf tokens).map Event.time).Nodup := by
    rw [List.Nodup,List.pairwise_map]
    exact well.told.ordered.imp (fun before => Nat.ne_of_lt before)
  have event := List.inj_on_of_nodup_map times (firstLabel_mem (well.label mine)) (firstLabel_mem (well.label other))
    (congrArg (· + 1) same)
  cases event
  rfl

theorem markerOrder_pos (mine : f ∈ markedNames (eventsOf tokens)) :
    2 ≤ markerOrder (eventsOf tokens) f := by
  obtain ⟨marker,found⟩ := Option.isSome_iff_exists.mp (mem_markedNames.mp mine)
  unfold markerOrder
  rw [found]
  exact type_order (firstType_mem found)

/-- A function ends behind its label and before the next one, or its end is left open behind token 0. -/
theorem WellMarked.ends (well : WellMarked tokens) (mine : f ∈ markedNames (eventsOf tokens)) :
    ((functionFor tokens f).last = 0 ∧ 0 < (functionFor tokens f).first ∧
        markerOrder (eventsOf tokens) f ≤ labelOrder (eventsOf tokens) f ∧ closing (heardOf tokens) f = none) ∨
      ((functionFor tokens f).first < (functionFor tokens f).last ∧
        (labelOrder (eventsOf tokens) f < markerOrder (eventsOf tokens) f ∨ closing (heardOf tokens) f ≠ none) ∧
        ∀ g ∈ markedNames (eventsOf tokens), (functionFor tokens f).first < (functionFor tokens g).first →
          (functionFor tokens f).last < (functionFor tokens g).first) := by
  have marker := markerOrder_pos mine
  unfold functionFor lastOrder
  dsimp only
  cases heard : closing (heardOf tokens) f with
  | none =>
    dsimp only
    by_cases behind : labelOrder (eventsOf tokens) f < markerOrder (eventsOf tokens) f
    · rw [if_pos behind]
      exact .inr ⟨behind,.inl behind,fun g other next => well.within f mine g other next behind⟩
    · rw [if_neg behind]
      exact .inl ⟨rfl,by omega,by omega,rfl⟩
  | some last =>
    have close := well.closed f mine last (well.closing_heard mine heard)
    dsimp only
    split_ifs with before behind
    · exact .inr ⟨close.1,.inr (by simp),fun g other next => close.2 g other next⟩
    · exact .inr ⟨behind,.inl behind,fun g other next => well.within f mine g other next behind⟩
    · omega

theorem sorted_perm : (sortFunctions (observeAll indexer tokens).functionTable.functions).Perm
    (observeAll indexer tokens).functionTable.functions :=
  List.mergeSort_perm _ _

theorem WellMarked.successive (well : WellMarked tokens) :
    Successive (sortFunctions (observeAll indexer tokens).functionTable.functions) := by
  have sorted : (sortFunctions (observeAll indexer tokens).functionTable.functions).Pairwise
      (fun left right => left.first ≤ right.first) := by
    have ordered := @List.pairwise_mergeSort _ (fun left right : Function => decide (left.first ≤ right.first))
      (fun a b c left right => by simp only [decide_eq_true_eq] at *; omega)
      (fun a b => by simp only [Bool.or_eq_true,decide_eq_true_eq]; omega)
      (observeAll indexer tokens).functionTable.functions
    exact ordered.imp (fun le => of_decide_eq_true le)
  have single : (sortFunctions (observeAll indexer tokens).functionTable.functions).Nodup :=
    sorted_perm.nodup_iff.mpr (List.Nodup.of_map _ (@WellMarked.follows indexer tokens well).nodup)
  have both := sorted.and single
  refine both.imp_of_mem (fun {left right} here there pair => ?_)
  obtain ⟨heard,shape⟩ := well.functions.mp (sorted_perm.mem_iff.mp here)
  obtain ⟨other,form⟩ := well.functions.mp (sorted_perm.mem_iff.mp there)
  have before : left.first < right.first := by
    apply Nat.lt_of_le_of_ne pair.1
    intro same
    rw [shape,form] at same
    have named := well.apart (heard_marked heard) (heard_marked other) same
    apply pair.2
    rw [shape,form,named]
  refine ⟨before,?_⟩
  rcases well.ends (heard_marked heard) with ⟨last,first,_⟩ | ⟨_,_,next⟩
  · rw [← shape] at last first
    exact .inl (by omega)
  · have apart := next right.name (heard_marked other)
    rw [← shape,← form] at apart
    exact .inr (apart before)

end Marked

section Container
variable {indexer : Indexer} {tokens : List Token} {events : List Event} {f g : Text} {order : Nat} {call : Call}

theorem inRegion_iff : inRegion events f order = true ↔ labelOrder events f ≤ order ∧
    ∀ g ∈ markedNames events, labelOrder events f < labelOrder events g → order < labelOrder events g := by
  unfold inRegion
  rw [Bool.and_eq_true_iff,List.all_eq_true,decide_eq_true_iff]
  refine and_congr_right (fun _ => forall₂_congr (fun g _ => ?_))
  by_cases next : labelOrder events f < labelOrder events g <;> simp [next]

theorem WellMarked.region_unique (well : WellMarked tokens) (mine : f ∈ markedNames (eventsOf tokens))
    (other : g ∈ markedNames (eventsOf tokens)) (here : inRegion (eventsOf tokens) f order = true)
    (there : inRegion (eventsOf tokens) g order = true) : f = g := by
  obtain ⟨begun,next⟩ := inRegion_iff.mp here
  obtain ⟨started,later⟩ := inRegion_iff.mp there
  rcases Nat.lt_trichotomy (labelOrder (eventsOf tokens) f) (labelOrder (eventsOf tokens) g) with before | same | behind
  · have apart := next g other before
    omega
  · exact well.apart mine other same
  · have apart := later f mine behind
    omega

-- behind a label there is a function
theorem region_exists (mine : f ∈ markedNames events) (begun : labelOrder events f ≤ order) :
    ∃ g ∈ markedNames events, inRegion events g order = true := by
  let candidates := (markedNames events).toFinset.filter (fun g => labelOrder events g ≤ order)
  have present : candidates.Nonempty := ⟨f,Finset.mem_filter.mpr ⟨List.mem_toFinset.mpr mine,begun⟩⟩
  obtain ⟨g,listed,latest⟩ := Finset.exists_max_image candidates (labelOrder events) present
  obtain ⟨marked,started⟩ := Finset.mem_filter.mp listed
  refine ⟨g,List.mem_toFinset.mp marked,inRegion_iff.mpr ⟨started,fun other named next => ?_⟩⟩
  by_contra open'
  have candidate : other ∈ candidates := Finset.mem_filter.mpr ⟨List.mem_toFinset.mpr named,Nat.not_lt.mp open'⟩
  have below := latest other candidate
  omega

theorem WellMarked.body_iff (well : WellMarked tokens) (mine : f ∈ markedNames (eventsOf tokens)) :
    inBody (eventsOf tokens) f order = true ↔
      inRegion (eventsOf tokens) f order = true ∧ ∀ last ∈ closing (eventsOf tokens) f, order ≤ last := by
  unfold inBody
  cases close : closing (eventsOf tokens) f with
  | none => simp
  | some last =>
    have apart := (well.closed f mine last close).2
    rw [Bool.and_eq_true_iff,decide_eq_true_iff,decide_eq_true_iff,inRegion_iff]
    constructor
    · intro ⟨begun,before⟩
      refine ⟨⟨begun,fun g other next => Nat.lt_of_le_of_lt before (apart g other next)⟩,fun other same => ?_⟩
      cases same
      exact before
    · intro ⟨⟨begun,_⟩,before⟩
      exact ⟨begun,before last rfl⟩

theorem WellMarked.bodyOf_iff (well : WellMarked tokens) : bodyOf (eventsOf tokens) order = some f ↔
    f ∈ markedNames (eventsOf tokens) ∧ inBody (eventsOf tokens) f order = true := by
  constructor
  · intro found
    exact ⟨List.mem_of_find?_eq_some found,List.find?_some (p := fun f => inBody (eventsOf tokens) f order) found⟩
  · intro ⟨mine,inside⟩
    have present : (bodyOf (eventsOf tokens) order).isSome := List.find?_isSome.mpr ⟨f,mine,inside⟩
    obtain ⟨g,found⟩ := Option.isSome_iff_exists.mp present
    have other := List.mem_of_find?_eq_some found
    have there := (well.body_iff other).mp (List.find?_some (p := fun f => inBody (eventsOf tokens) f order) found)
    rw [found,well.region_unique mine other ((well.body_iff mine).mp inside).1 there.1]

/-- The function that `finish` has for the call. -/
def containerOf (indexer : Indexer) (tokens : List Token) (call : Call) : Option Text :=
  (containingFunction call (repairEnds (sortFunctions (observeAll indexer tokens).functionTable.functions)) none).map Function.name

/-- The end of `f` is left open, or behind the token. -/
def Covers (tokens : List Token) (f : Text) (order : Nat) : Prop :=
  (functionFor tokens f).last < (functionFor tokens f).first ∨ order ≤ (functionFor tokens f).last

theorem WellMarked.container_region (well : WellMarked tokens) (small : call.order ≤ maxOrder)
    (heard : f ∈ markedNames (heardOf tokens)) (region : inRegion (eventsOf tokens) f call.order = true) :
    (Covers tokens f call.order → containerOf indexer tokens call = some f) ∧
      (¬Covers tokens f call.order → containerOf indexer tokens call = none) := by
  obtain ⟨begun,next⟩ := inRegion_iff.mp region
  have listed : functionFor tokens f ∈ sortFunctions (observeAll indexer tokens).functionTable.functions :=
    sorted_perm.mem_iff.mpr (well.functions.mpr ⟨heard,rfl⟩)
  have latest : ∀ other ∈ sortFunctions (observeAll indexer tokens).functionTable.functions,
      (functionFor tokens f).first < other.first → call.order < other.first := by
    intro other member before
    obtain ⟨named,shape⟩ := well.functions.mp (sorted_perm.mem_iff.mp member)
    rw [shape] at before ⊢
    exact next other.name (heard_marked named) before
  unfold containerOf
  rw [containing_spec well.successive small listed begun latest none]
  exact ⟨fun covers => if_pos covers,fun outside => if_neg outside⟩

theorem WellMarked.container_iff (well : WellMarked tokens) (small : call.order ≤ maxOrder)
    (all : ∀ f ∈ markedNames (eventsOf tokens), f ∈ markedNames (heardOf tokens)) :
    containerOf indexer tokens call = some f ↔
      f ∈ markedNames (eventsOf tokens) ∧ inRegion (eventsOf tokens) f call.order = true ∧ Covers tokens f call.order := by
  constructor
  · intro found
    by_cases begun : ∃ g ∈ markedNames (eventsOf tokens), labelOrder (eventsOf tokens) g ≤ call.order
    · obtain ⟨g,mine,started⟩ := begun
      obtain ⟨other,marked,region⟩ := region_exists mine started
      obtain ⟨inside,outside⟩ := @WellMarked.container_region indexer tokens other call well small (all other marked) region
      by_cases covers : Covers tokens other call.order
      · rw [inside covers] at found
        cases found
        exact ⟨marked,region,covers⟩
      · rw [outside covers] at found
        cases found
    · have later : ∀ function ∈ sortFunctions (observeAll indexer tokens).functionTable.functions,
          call.order < function.first := by
        intro function listed
        obtain ⟨heard,shape⟩ := well.functions.mp (sorted_perm.mem_iff.mp listed)
        rw [shape]
        by_contra before
        exact begun ⟨function.name,heard_marked heard,Nat.not_lt.mp before⟩
      unfold containerOf at found
      rw [containing_later later none] at found
      cases found
  · intro ⟨mine,region,covers⟩
    exact (well.container_region small (all f mine) region).1 covers

/-- Which of its calls a function gets. -/
theorem WellMarked.covers_cases (well : WellMarked tokens) (mine : f ∈ markedNames (eventsOf tokens)) :
    (∃ last ∈ closing (heardOf tokens) f, markerOrder (eventsOf tokens) f < last ∧
        closing (eventsOf tokens) f = some last ∧ (Covers tokens f order ↔ order ≤ last)) ∨
      ((∀ last ∈ closing (heardOf tokens) f, ¬markerOrder (eventsOf tokens) f < last) ∧
        (Covers tokens f order ↔
          (labelOrder (eventsOf tokens) f < markerOrder (eventsOf tokens) f → order ≤ markerOrder (eventsOf tokens) f))) := by
  have marker := markerOrder_pos mine
  unfold Covers functionFor lastOrder
  dsimp only
  cases heard : closing (heardOf tokens) f with
  | none =>
    refine .inr ⟨by simp,?_⟩
    dsimp only
    split_ifs with behind
    · simp [behind,Nat.lt_asymm behind]
    · simp only [behind,false_implies,iff_true]
      exact .inl (by omega)
  | some last =>
    have close := well.closing_heard mine heard
    have begun := (well.closed f mine last close).1
    dsimp only
    by_cases before : markerOrder (eventsOf tokens) f < last
    · rw [if_pos ⟨before,begun⟩]
      exact .inl ⟨last,rfl,before,close,by simp [Nat.lt_asymm begun]⟩
    · have behind : labelOrder (eventsOf tokens) f < markerOrder (eventsOf tokens) f := by omega
      rw [if_neg (fun both => before both.1),if_pos behind]
      exact .inr ⟨by simpa using before,by simp [behind,Nat.lt_asymm behind]⟩

theorem WellMarked.enclosed_iff (well : WellMarked tokens) (mine : f ∈ markedNames (eventsOf tokens))
    (region : inRegion (eventsOf tokens) f order = true) :
    Enclosed (markerOrder (eventsOf tokens) f) (labelOrder (eventsOf tokens) f) (closing (eventsOf tokens) f)
      (closing (heardOf tokens) f) order ↔ (inBody (eventsOf tokens) f order = true ↔ Covers tokens f order) := by
  unfold Enclosed
  rw [well.body_iff mine,region]
  rcases well.covers_cases mine with ⟨last,heard,before,close,covers⟩ | ⟨behind,covers⟩
  · rw [covers,close]
    exact iff_of_true (.inl ⟨last,heard,before⟩) (by simp)
  · rw [covers]
    have none : ¬∃ last ∈ closing (heardOf tokens) f, markerOrder (eventsOf tokens) f < last :=
      fun ⟨last,heard,before⟩ => behind last heard before
    rw [or_iff_right none]
    simp

/-- A function gets no call that is not its own, or it loses none. -/
theorem WellMarked.one_sided (well : WellMarked tokens) (mine : f ∈ markedNames (eventsOf tokens)) :
    (∀ order, inRegion (eventsOf tokens) f order = true → Covers tokens f order → inBody (eventsOf tokens) f order = true) ∨
      ∀ order, inRegion (eventsOf tokens) f order = true → inBody (eventsOf tokens) f order = true → Covers tokens f order := by
  cases close : closing (eventsOf tokens) f with
  | none =>
    refine .inl (fun order region _ => (well.body_iff mine).mpr ⟨region,?_⟩)
    rw [close]
    simp
  | some last =>
    by_cases reach : labelOrder (eventsOf tokens) f < markerOrder (eventsOf tokens) f ∧ markerOrder (eventsOf tokens) f ≤ last
    · refine .inl (fun order region covers => (well.body_iff mine).mpr ⟨region,?_⟩)
      intro other same
      rw [close] at same
      cases same
      rcases well.covers_cases mine with ⟨heard,_,_,found,shape⟩ | ⟨_,shape⟩
      · rw [close] at found
        cases found
        exact shape.mp covers
      · exact (shape.mp covers reach.1).trans reach.2
    · refine .inr (fun order region inside => ?_)
      have before := ((well.body_iff mine).mp inside).2 last close
      rcases well.covers_cases mine with ⟨heard,_,_,found,shape⟩ | ⟨_,shape⟩
      · rw [close] at found
        cases found
        exact shape.mpr before
      · refine shape.mpr (fun behind => ?_)
        have after : last < markerOrder (eventsOf tokens) f := by
          by_contra under
          exact reach ⟨behind,Nat.not_lt.mp under⟩
        omega

end Container

section Emitted
variable {indexer : Indexer} {tokens : List Token} {f : Text}

theorem countP_pointwise {α : Type} {items : List α} {some' more : α → Bool} (implies : ∀ a ∈ items, some' a = true → more a = true)
    (same : items.countP some' = items.countP more) : ∀ a ∈ items, more a = true → some' a = true := by
  induction items with
  | nil => simp
  | cons head rest ih =>
    have fewer := List.countP_mono_left (fun a listed => implies a (List.mem_cons_of_mem head listed))
    have first := implies head List.mem_cons_self
    rw [List.countP_cons,List.countP_cons] at same
    have both : (some' head = more head) ∧ rest.countP some' = rest.countP more := by
      cases one : some' head with
      | true =>
        rw [one,first one] at same
        exact ⟨(first one).symm,by simpa using same⟩
      | false =>
        cases other : more head with
        | false =>
          rw [one,other] at same
          exact ⟨rfl,by simpa using same⟩
        | true =>
          rw [one,other] at same
          simp only [Bool.false_eq_true,if_false,if_true] at same
          omega
    intro a listed holds
    rcases List.mem_cons.mp listed with rfl | listed
    · exact both.1.trans holds
    · exact ih (fun a listed => implies a (List.mem_cons_of_mem head listed)) both.2 a listed holds

def emittedName (emission : Emission) : Option Text :=
  match emission.item with
  | .symbol symbol => some symbol.name
  | _ => none

def emittedContext (emission : Emission) : Option Text :=
  match emission.item with
  | .use use => some use.context
  | _ => none

theorem emissions_names (names : List Text) (functionOf : Call → Option Text) :
    (emissions indexer tokens names functionOf).filterMap emittedName = names := by
  unfold emissions
  rw [List.filterMap_append,List.filterMap_map,List.filterMap_filterMap]
  have none : (fun call => ((functionOf call).map (fun f => indexer.assemblyCall call.target f call.location)).bind emittedName) =
      fun _ => none := by
    funext call
    cases functionOf call <;> rfl
  have all : emittedName ∘ (fun f => indexer.assemblyFunction f (labelLocation (eventsOf tokens) f)) = some := rfl
  rw [none,all,List.filterMap_some]
  simp

theorem emissions_contexts (names : List Text) (functionOf : Call → Option Text) :
    (emissions indexer tokens names functionOf).filterMap emittedContext =
      (observeAll indexer tokens).callObserver.calls.filterMap functionOf := by
  unfold emissions
  rw [List.filterMap_append,List.filterMap_map,List.filterMap_filterMap]
  have none : emittedContext ∘ (fun f => indexer.assemblyFunction f (labelLocation (eventsOf tokens) f)) = fun _ => none := rfl
  have all : (fun call => ((functionOf call).map (fun f => indexer.assemblyCall call.target f call.location)).bind emittedContext) =
      functionOf := by
    funext call
    cases functionOf call <;> rfl
  rw [none,all]
  simp

theorem WellMarked.finish_items (well : WellMarked tokens) : ((observeAll indexer tokens).finish indexer).functionTable.items =
    emissions indexer tokens ((observeAll indexer tokens).functionTable.functions.map Function.name) (containerOf indexer tokens) := by
  have follows := @WellMarked.follows indexer tokens well
  unfold emissions SemindexAsmIndexer.finish
  dsimp only
  rw [follows.items,List.map_map]
  congr 1
  · apply List.map_congr_left
    intro function listed
    have heard := (well.functions.mp listed).1
    have location : labelLocation (heardOf tokens) function.name = labelLocation (eventsOf tokens) function.name := by
      have label := well.label_heard (heard_marked heard)
      have unfolded : labelLocation (heardOf tokens) function.name =
          ((firstLabel (heardOf tokens) function.name).map Marker.location).getD 0 := rfl
      rw [unfolded,label]
      rfl
    exact congrArg (indexer.assemblyFunction function.name) location
  · congr 1
    funext call
    unfold containerOf
    rw [Option.map_map]
    rfl

theorem call_small (well : WellMarked tokens) {call : Call} (listed : call ∈ (observeAll indexer tokens).callObserver.calls) :
    call.order ≤ maxOrder := by
  rw [observeAll_calls] at listed
  have before := heardAll_before (fun state => by cases state) listed
  have counted := well.counted
  omega

theorem WellMarked.embraces (well : WellMarked tokens) (attributed : Attributed indexer tokens) :
    Embraced tokens (observeAll indexer tokens).callObserver.calls := by
  obtain ⟨names,nodup,marked,items⟩ := attributed.emitted
  rw [well.finish_items] at items
  have same := congrArg (List.filterMap emittedName) items
  rw [emissions_names,emissions_names] at same
  have all : ∀ f ∈ markedNames (eventsOf tokens), f ∈ markedNames (heardOf tokens) := by
    intro f mine
    rw [← @WellMarked.names indexer tokens _ well,same]
    exact (marked f).mpr mine
  refine ⟨all,fun f mine call listed region => (well.enclosed_iff mine region).mpr ?_⟩
  have contexts := congrArg (List.filterMap emittedContext) items
  rw [emissions_contexts,emissions_contexts] at contexts
  have counts := congrArg (List.countP (fun context => decide (context = f))) contexts
  rw [List.countP_filterMap,List.countP_filterMap] at counts
  have holds (a : Option Text) : (a.map (fun context => decide (context = f))).getD false = decide (a = some f) := by
    cases a <;> simp
  simp only [holds] at counts
  have body (call : Call) : bodyOf (eventsOf tokens) call.order = some f ↔ inBody (eventsOf tokens) f call.order = true := by
    rw [well.bodyOf_iff]
    exact and_iff_right mine
  have container {call : Call} (listed : call ∈ (observeAll indexer tokens).callObserver.calls) :
      containerOf indexer tokens call = some f ↔
        inRegion (eventsOf tokens) f call.order = true ∧ Covers tokens f call.order := by
    rw [well.container_iff (call_small well listed) all]
    exact and_iff_right mine
  rcases well.one_sided mine with more | fewer
  · constructor
    · intro inside
      have both := countP_pointwise (fun call listed covers => ?_) counts call listed (decide_eq_true ((body call).mpr inside))
      · exact ((container listed).mp (of_decide_eq_true both)).2
      · obtain ⟨there,reach⟩ := (container listed).mp (of_decide_eq_true covers)
        exact decide_eq_true ((body call).mpr (more _ there reach))
    · exact more _ region
  · constructor
    · exact fewer _ region
    · intro covers
      have both := countP_pointwise (fun call listed inside => ?_) counts.symm call listed
        (decide_eq_true ((container listed).mpr ⟨region,covers⟩))
      · exact (body call).mp (of_decide_eq_true both)
      · have inside := (body call).mp (of_decide_eq_true inside)
        have there := ((well.body_iff mine).mp inside).1
        exact decide_eq_true ((container listed).mpr ⟨there,fewer _ there inside⟩)

theorem WellMarked.attributes (well : WellMarked tokens) (embraced : Embraced tokens (observeAll indexer tokens).callObserver.calls) :
    Attributed indexer tokens := by
  have all := embraced.heard
  constructor
  · refine ⟨_,(@WellMarked.follows indexer tokens well).nodup,fun f => ?_,?_⟩
    · rw [well.names]
      exact ⟨heard_marked,all f⟩
    · rw [well.finish_items]
      unfold emissions
      congr 1
      apply List.filterMap_congr
      intro call listed
      congr 1
      ext f
      rw [well.container_iff (call_small well listed) all,well.bodyOf_iff]
      refine and_congr_right (fun mine => ?_)
      by_cases region : inRegion (eventsOf tokens) f call.order = true
      · rw [(well.enclosed_iff mine region).mp (embraced.enclosed f mine call listed region)]
        exact and_iff_right region
      · exact iff_of_false (fun both => region both.1) (fun inside => region ((well.body_iff mine).mp inside).1)
  · intro function listed
    obtain ⟨heard,shape⟩ := well.functions.mp listed
    rcases well.ends (heard_marked heard) with ⟨last,first,before,open'⟩ | ⟨first,behind,_⟩
    · rw [← shape] at last first
      exact ⟨iff_of_true last ⟨before,open'⟩,iff_of_true (by omega) last⟩
    · rw [← shape] at first
      refine ⟨iff_of_false (by omega) (fun ⟨before,open'⟩ => ?_),iff_of_false (by omega) (by omega)⟩
      rcases behind with behind | close
      · omega
      · exact close open'

/-- The functions and calls of a source come out as it has them exactly where its markers embrace the calls. -/
theorem calls_attributed_iff (well : WellMarked tokens) :
    Attributed indexer tokens ↔ Embraced tokens (observeAll indexer tokens).callObserver.calls :=
  ⟨well.embraces,well.attributes⟩

theorem lexes_g : lexes .identifier [ 'g'] := rfl

theorem lexes_call : lexes .identifier "call".toList := rfl

-- `.type f, @function`, `f:`, `call g`, `.ent g`, `g:`, `call f`, `.end g`
def markedFirst : List Token :=
  [⟨.period,[ '.'],0,rfl⟩,⟨.identifier,typeWord,0,rfl⟩,⟨.identifier,[ 'f'],0,rfl⟩,⟨.comma,[ ','],0,rfl⟩,⟨.other,[ '@'],0,rfl⟩,
    ⟨.identifier,functionWord,0,rfl⟩,⟨.identifier,[ 'f'],1,rfl⟩,⟨.colon,[ ':'],0,rfl⟩,⟨.identifier,"call".toList,0,lexes_call⟩,
    ⟨.identifier,[ 'g'],2,lexes_g⟩,⟨.period,[ '.'],0,rfl⟩,⟨.identifier,entWord,0,rfl⟩,⟨.identifier,[ 'g'],0,lexes_g⟩,
    ⟨.identifier,[ 'g'],3,lexes_g⟩,⟨.colon,[ ':'],0,rfl⟩,⟨.identifier,"call".toList,0,lexes_call⟩,⟨.identifier,[ 'f'],4,rfl⟩,
    ⟨.period,[ '.'],0,rfl⟩,⟨.identifier,endWord,0,rfl⟩,⟨.identifier,[ 'g'],0,lexes_g⟩,endOfFile 5]

theorem markedFirst_events : eventsOf markedFirst = [.type [ 'f'] 0 5,.label [ 'f'] 1 6,.type [ 'g'] 0 12,.label [ 'g'] 3 13,
    .close [ 'g'] 19] ∧ heardOf markedFirst = eventsOf markedFirst := by
  decide +kernel

theorem markedFirst_well : WellMarked markedFirst := by
  refine ⟨by decide,?_,?_,?_,?_,?_⟩ <;> rw [markedFirst_events.1] <;> decide

theorem markedFirst_calls : ({} : CallObserver).heardAll 0 markedFirst = [⟨[ 'g'],2,9⟩,⟨[ 'f'],4,16⟩] := by
  decide +kernel

theorem calls_attributed_pair : WellMarked markedFirst ∧ ∀ indexer : Indexer, Attributed indexer markedFirst := by
  refine ⟨markedFirst_well,fun indexer => (calls_attributed_iff markedFirst_well).mpr ⟨?_,?_⟩⟩
  · rw [markedFirst_events.2,markedFirst_events.1]
    decide
  · rw [observeAll_calls,markedFirst_calls,markedFirst_events.2,markedFirst_events.1]
    decide

-- `f:`, `.type f, @function`, `call g`
def markedNext : List Token :=
  [⟨.identifier,[ 'f'],1,rfl⟩,⟨.colon,[ ':'],0,rfl⟩,⟨.period,[ '.'],0,rfl⟩,⟨.identifier,typeWord,0,rfl⟩,
    ⟨.identifier,[ 'f'],0,rfl⟩,⟨.comma,[ ','],0,rfl⟩,⟨.other,[ '@'],0,rfl⟩,⟨.identifier,functionWord,0,rfl⟩,
    ⟨.identifier,"call".toList,0,lexes_call⟩,⟨.identifier,[ 'g'],2,lexes_g⟩,endOfFile 3]

/-- A marker directly behind the label ends the function before its first call. -/
theorem marker_ends_body : WellMarked markedNext ∧ ∀ indexer : Indexer, ¬Attributed indexer markedNext := by
  have events : eventsOf markedNext = [.label [ 'f'] 1 0,.type [ 'f'] 0 7] := by decide +kernel
  have calls : ({} : CallObserver).heardAll 0 markedNext = [⟨[ 'g'],2,9⟩] := by decide +kernel
  have well : WellMarked markedNext := by
    refine ⟨by decide,?_,?_,?_,?_,?_⟩ <;> rw [events] <;> decide
  refine ⟨well,fun indexer attributed => ?_⟩
  have enclosed := (well.embraces attributed).enclosed
  rw [observeAll_calls,calls,events] at enclosed
  have cut := enclosed [ 'f'] (by decide) ⟨[ 'g'],2,9⟩ (by simp) (by decide)
  revert cut
  decide

end Emitted

end Semindex.Parser.Asm
