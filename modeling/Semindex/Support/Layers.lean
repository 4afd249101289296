import Mathlib.Data.List.Induction

/-! Answers put together from two layers, where what the upper one says of a
place is meant to replace what the lower one says of it. An answer keeps for each
key the first item and the first of the highest rank. It is asked for in several
steps, and a step may leave out items of the lower layer where the upper one has
answered. -/
namespace Semindex.Layers

inductive Layer where
  | upper | lower
  deriving DecidableEq

structure Layered (α : Type) where
  layer : Layer
  item : α
  deriving DecidableEq

theorem Layered.of_layer {α : Type} {y : Layered α} {layer : Layer} (same : y.layer = layer) :
    (⟨layer,y.item⟩ : Layered α) = y := by rw [← same]

-- the part in which an element of a concatenation stands
theorem split_append {α : Type} {first second front back : List α} {x : α}
    (split : first ++ second = front ++ x::back) :
    (∃ rest, first = front ++ x::rest) ∨ ∃ rest, front = first ++ rest ∧ second = rest ++ x::back := by
  rcases List.append_eq_append_iff.mp split with ⟨rest,same,tail⟩ | ⟨rest,same,tail⟩
  · exact .inr ⟨rest,same,tail⟩
  · cases rest with
    | nil => exact .inr ⟨[],by simpa using same.symm,tail.symm⟩
    | cons y rest =>
      rw [← (List.cons.inj tail).1] at same
      exact .inl ⟨rest,same⟩

/-- What is kept of the items of a key. -/
structure Slot (α : Type) where
  first : Layered α
  best : Layered α

section Offers
variable {α κ : Type} (key : α → κ) (rank : α → Nat)

structure First (offers : List (Layered α)) (x : Layered α) : Prop where
  split : ∃ before after, offers = before ++ x::after ∧ ∀ y ∈ before, key y.item ≠ key x.item

structure Best (offers : List (Layered α)) (x : Layered α) : Prop where
  split : ∃ before after, offers = before ++ x::after ∧
    (∀ y ∈ before, key y.item = key x.item → rank y.item < rank x.item) ∧
    ∀ y ∈ after, key y.item = key x.item → rank y.item ≤ rank x.item

structure Kept (offers : List (Layered α)) (slot : Slot α) : Prop where
  first : First key offers slot.first
  best : Best key rank offers slot.best
  same : key slot.best.item = key slot.first.item

variable {key rank} {offers : List (Layered α)} {x y : Layered α} {slot : Slot α}

theorem First.mem (first : First key offers x) : x ∈ offers := by
  obtain ⟨before,after,rfl,_⟩ := first.split
  simp

theorem First.append (first : First key offers x) (more : List (Layered α)) : First key (offers ++ more) x := by
  obtain ⟨before,after,rfl,new⟩ := first.split
  exact ⟨before,after ++ more,by simp,new⟩

-- the first item of a key stands before any other of the key
theorem First.prefix_mem {front back : List (Layered α)} (first : First key (front ++ back) x) (member : y ∈ front)
    (same : key y.item = key x.item) : x ∈ front := by
  obtain ⟨before,after,equal,new⟩ := first.split
  rcases split_append equal with ⟨rest,rfl⟩ | ⟨rest,rfl,_⟩
  · simp
  · exact absurd same (new y (List.mem_append_left _ member))

theorem Best.mem (best : Best key rank offers x) : x ∈ offers := by
  obtain ⟨before,after,rfl,_⟩ := best.split
  simp

theorem Best.bound (best : Best key rank offers x) (member : y ∈ offers) (same : key y.item = key x.item) :
    rank y.item ≤ rank x.item := by
  obtain ⟨before,after,rfl,lower,higher⟩ := best.split
  rcases List.mem_append.mp member with earlier | later
  · exact Nat.le_of_lt (lower y earlier same)
  · rcases List.mem_cons.mp later with rfl | later
    · exact Nat.le_refl _
    · exact higher y later same

-- the best item outranks what is offered before the part it stands in
theorem Best.prefix_lt {front back : List (Layered α)} (best : Best key rank (front ++ back) x) (outside : x ∉ front)
    (member : y ∈ front) (same : key y.item = key x.item) : rank y.item < rank x.item := by
  obtain ⟨before,after,equal,lower,_⟩ := best.split
  rcases split_append equal with ⟨rest,rfl⟩ | ⟨rest,rfl,_⟩
  · simp at outside
  · exact lower y (List.mem_append_left _ member) same

end Offers

section Collect
variable {α κ : Type} [DecidableEq κ] (key : α → κ) (rank : α → Nat)

def raise (x : Layered α) (slot : Slot α) : Slot α :=
  if key slot.first.item = key x.item ∧ rank slot.best.item < rank x.item then {slot with best := x} else slot

def put (slots : List (Slot α)) (x : Layered α) : List (Slot α) :=
  if key x.item ∈ slots.map (fun slot => key slot.first.item) then slots.map (raise key rank x) else slots ++ [⟨x,x⟩]

def slots (offers : List (Layered α)) : List (Slot α) := offers.foldl (put key rank) []

def putFirst (items : List (Layered α)) (x : Layered α) : List (Layered α) :=
  if key x.item ∈ items.map (fun y => key y.item) then items else items ++ [x]

def firsts (offers : List (Layered α)) : List (Layered α) := offers.foldl (putFirst key) []

variable {key rank} {offers : List (Layered α)} {x : Layered α} {slot : Slot α}

@[simp] theorem raise_first : (raise key rank x slot).first = slot.first := by
  unfold raise
  split <;> rfl

theorem Kept.offer (kept : Kept key rank offers slot) (x : Layered α) :
    Kept key rank (offers ++ [x]) (raise key rank x slot) := by
  obtain ⟨first,best,same⟩ := kept
  obtain ⟨before,after,split,lower,higher⟩ := best.split
  unfold raise
  split
  · rename_i raised
    refine ⟨first.append [x],⟨offers,[],rfl,?_,by simp⟩,raised.1.symm⟩
    intro y member key
    exact Nat.lt_of_le_of_lt (best.bound member ((key.trans raised.1.symm).trans same.symm)) raised.2
  · rename_i stays
    refine ⟨first.append [x],⟨before,after ++ [x],by simp [split],lower,?_⟩,same⟩
    intro y member key
    rcases List.mem_append.mp member with inside | last
    · exact higher y inside key
    · rw [List.mem_singleton.mp last] at key ⊢
      exact Nat.le_of_not_lt (fun less => stays ⟨(key.trans same).symm,less⟩)

theorem slots_concat : slots key rank (offers ++ [x]) = put key rank (slots key rank offers) x := by
  simp [slots]

theorem slot_of_mem (member : x ∈ offers) : ∃ slot ∈ slots key rank offers, key slot.first.item = key x.item := by
  induction offers using List.reverseRecOn with
  | nil => simp at member
  | append_singleton offers last ih =>
    rw [slots_concat,put]
    split
    · rename_i known
      rcases List.mem_append.mp member with inside | new
      · obtain ⟨slot,stored,same⟩ := ih inside
        exact ⟨raise key rank last slot,List.mem_map_of_mem stored,by rw [raise_first,same]⟩
      · rw [List.mem_singleton.mp new]
        obtain ⟨slot,stored,same⟩ := List.mem_map.mp known
        exact ⟨raise key rank last slot,List.mem_map_of_mem stored,by rw [raise_first,same]⟩
    · rcases List.mem_append.mp member with inside | new
      · obtain ⟨slot,stored,same⟩ := ih inside
        exact ⟨slot,List.mem_append_left _ stored,same⟩
      · rw [List.mem_singleton.mp new]
        exact ⟨⟨last,last⟩,by simp,rfl⟩

theorem kept_slots (stored : slot ∈ slots key rank offers) : Kept key rank offers slot := by
  induction offers using List.reverseRecOn generalizing slot with
  | nil => simp [slots] at stored
  | append_singleton offers last ih =>
    rw [slots_concat,put] at stored
    split at stored
    · obtain ⟨old,inside,rfl⟩ := List.mem_map.mp stored
      exact (ih inside).offer last
    · rename_i unknown
      rcases List.mem_append.mp stored with inside | new
      · have kept := (ih inside).offer last
        have apart : key slot.first.item ≠ key last.item := by
          intro same
          exact unknown (List.mem_map.mpr ⟨slot,inside,same⟩)
        rwa [raise,if_neg (fun both => apart both.1)] at kept
      · have fresh : ∀ y ∈ offers, key y.item ≠ key last.item := by
          intro y member same
          obtain ⟨old,stored,equal⟩ := @slot_of_mem _ _ _ key rank _ _ member
          exact unknown (List.mem_map.mpr ⟨old,stored,equal.trans same⟩)
        rw [List.mem_singleton.mp new]
        exact ⟨⟨offers,[],rfl,fresh⟩,⟨offers,[],rfl,fun y member same => absurd same (fresh y member),by simp⟩,rfl⟩

/-- Without ranks the best item of a key is the first, and the slots are the first items. -/
theorem slots_unranked (key : α → κ) (offers : List (Layered α)) : slots key (fun _ => 0) offers = (firsts key offers).map (fun x => ⟨x,x⟩) := by
  induction offers using List.reverseRecOn with
  | nil => rfl
  | append_singleton offers last ih =>
    have later : firsts key (offers ++ [last]) = putFirst key (firsts key offers) last := by simp [firsts]
    rw [slots_concat,later,ih,put,putFirst]
    simp only [List.map_map,Function.comp_def]
    split
    · simp [raise]
    · simp

theorem firsts_mem {key : α → κ} (kept : x ∈ firsts key offers) : x ∈ offers := by
  have stored : (⟨x,x⟩ : Slot α) ∈ slots key (fun _ => 0) offers := by
    rw [slots_unranked]
    exact List.mem_map_of_mem kept
  exact (kept_slots stored).first.mem

theorem firsts_nil_iff {key : α → κ} : firsts key offers = [] ↔ offers = [] := by
  constructor
  · intro none
    by_contra some
    obtain ⟨x,member⟩ := List.exists_mem_of_ne_nil offers some
    obtain ⟨slot,stored,_⟩ := @slot_of_mem _ _ _ key (fun _ => 0) _ _ member
    rw [slots_unranked,none] at stored
    simp at stored
  · intro none
    rw [none]
    rfl

theorem mem_slotKeys (k : κ) : k ∈ (slots key rank offers).map (fun slot => key slot.first.item) ↔
    k ∈ offers.map (fun y => key y.item) := by
  constructor
  · intro member
    obtain ⟨slot,stored,rfl⟩ := List.mem_map.mp member
    exact List.mem_map_of_mem (kept_slots stored).first.mem
  · intro member
    obtain ⟨y,offered,rfl⟩ := List.mem_map.mp member
    obtain ⟨slot,stored,same⟩ := @slot_of_mem _ _ _ key rank _ _ offered
    exact List.mem_map.mpr ⟨slot,stored,same⟩

theorem slots_length_concat : (slots key rank (offers ++ [x])).length =
    (slots key rank offers).length + if key x.item ∈ offers.map (fun y => key y.item) then 0 else 1 := by
  rw [slots_concat,put]
  by_cases known : key x.item ∈ offers.map (fun y => key y.item)
  · rw [if_pos ((mem_slotKeys _).mpr known),if_pos known]
    simp
  · rw [if_neg (fun slot => known ((mem_slotKeys _).mp slot)),if_neg known]
    simp

theorem slots_length_le (more : List (Layered α)) :
    (slots key rank offers).length ≤ (slots key rank (offers ++ more)).length := by
  induction more generalizing offers with
  | nil => simp
  | cons y more ih =>
    have step := @ih (offers ++ [y])
    rw [slots_length_concat,List.append_assoc] at step
    exact Nat.le_trans (Nat.le_add_right _ _) step

/-- The slots become more exactly by the items of a new key. -/
theorem slots_length_iff (more : List (Layered α)) :
    (slots key rank (offers ++ more)).length = (slots key rank offers).length ↔
      ∀ y ∈ more, key y.item ∈ offers.map (fun x => key x.item) := by
  induction more generalizing offers with
  | nil => simp
  | cons y more ih =>
    have step := @ih (offers ++ [y])
    have grown := @slots_length_le _ _ _ key rank (offers ++ [y]) more
    rw [slots_length_concat,List.append_assoc] at step grown
    rw [List.forall_mem_cons]
    by_cases known : key y.item ∈ offers.map (fun x => key x.item)
    · rw [if_pos known,Nat.add_zero] at step
      rw [show offers ++ y::more = offers ++ ([y] ++ more) from rfl,step]
      constructor
      · intro all
        refine ⟨known,fun z member => ?_⟩
        have inside := all z member
        rw [List.map_append,List.mem_append] at inside
        rcases inside with before | same
        · exact before
        · rw [List.mem_singleton.mp same]
          exact known
      · intro all z member
        rw [List.map_append]
        exact List.mem_append_left _ (all.2 z member)
    · rw [if_neg known] at grown
      constructor
      · intro same
        exact absurd same (Nat.ne_of_gt (Nat.lt_of_succ_le grown))
      · intro all
        exact absurd all.1 known

end Collect

section Asks
variable {α κ : Type}

/-- What the layers answer to one step, and the items that the step leaves out if the upper one answered. -/
structure Ask (α : Type) where
  upper : List α
  lower : List α
  hides : α → Bool

def upperItems (asks : List (Ask α)) : List α := asks.flatMap Ask.upper

def Ask.uppers (ask : Ask α) : List (Layered α) := ask.upper.map (fun x => ⟨.upper,x⟩)

def Ask.lowers (ask : Ask α) (answered : Bool) : List (Layered α) :=
  (ask.lower.filter (fun x => !(answered && ask.hides x))).map (fun x => ⟨.lower,x⟩)

variable (key : α → κ) (answered : List κ → Ask α → Bool)

/-- What is collected after further steps; whether the upper layer answered can depend on what there was. -/
def offersAfter : List (Layered α) → List (Ask α) → List (Layered α)
  | seen,[] => seen
  | seen,ask::asks =>
    offersAfter (seen ++ (ask.uppers ++ ask.lowers (answered (seen.map (fun x => key x.item)) ask))) asks

def offers (asks : List (Ask α)) : List (Layered α) := offersAfter key answered [] asks

variable {key answered} {seen : List (Layered α)} {ask : Ask α} {asks before after : List (Ask α)} {x : α}

theorem offersAfter_append : offersAfter key answered seen (before ++ after) =
    offersAfter key answered (offersAfter key answered seen before) after := by
  induction before generalizing seen with
  | nil => rfl
  | cons ask before ih => exact ih

theorem offersAfter_prefix : ∃ more, offersAfter key answered seen asks = seen ++ more := by
  induction asks generalizing seen with
  | nil => exact ⟨[],by simp [offersAfter]⟩
  | cons ask asks ih =>
    obtain ⟨more,same⟩ := @ih (seen ++ (ask.uppers ++ ask.lowers (answered (seen.map (fun x => key x.item)) ask)))
    exact ⟨ask.uppers ++ ask.lowers (answered (seen.map (fun x => key x.item)) ask) ++ more,by
      rw [offersAfter,same]
      simp⟩

def collectedKeys (key : α → κ) (answered : List κ → Ask α → Bool) (asks : List (Ask α)) : List κ :=
  (offers key answered asks).map (fun x => key x.item)

theorem offers_concat : offers key answered (before ++ [ask]) =
    offers key answered before ++ (ask.uppers ++ ask.lowers (answered (collectedKeys key answered before) ask)) := by
  rw [offers,offersAfter_append]
  rfl

theorem offers_extend : ∃ more, offers key answered (before ++ after) = offers key answered before ++ more := by
  rw [offers,offersAfter_append]
  exact offersAfter_prefix

@[simp] theorem mem_uppers {y : Layered α} : y ∈ ask.uppers ↔ y.layer = .upper ∧ y.item ∈ ask.upper := by
  unfold Ask.uppers
  rw [List.mem_map]
  constructor
  · intro ⟨x,member,same⟩
    subst same
    exact ⟨rfl,member⟩
  · intro ⟨upper,member⟩
    exact ⟨y.item,member,Layered.of_layer upper⟩

@[simp] theorem mem_lowers {y : Layered α} {hidden : Bool} : y ∈ ask.lowers hidden ↔
    y.layer = .lower ∧ y.item ∈ ask.lower ∧ (hidden && ask.hides y.item) = false := by
  unfold Ask.lowers
  rw [List.mem_map]
  constructor
  · intro ⟨x,member,same⟩
    subst same
    obtain ⟨listed,shown⟩ := List.mem_filter.mp member
    exact ⟨rfl,listed,by cases hidden <;> simp_all⟩
  · intro ⟨lower,member,shown⟩
    exact ⟨y.item,List.mem_filter.mpr ⟨member,by rw [shown]; rfl⟩,Layered.of_layer lower⟩

theorem mem_upperItems : x ∈ upperItems asks ↔ ∃ ask ∈ asks, x ∈ ask.upper := List.mem_flatMap

/-- The items of the upper layer are all collected. -/
theorem upper_mem_offers : ⟨.upper,x⟩ ∈ offers key answered asks ↔ x ∈ upperItems asks := by
  induction asks using List.reverseRecOn with
  | nil => simp [offers,offersAfter,upperItems]
  | append_singleton asks ask ih =>
    rw [offers_concat,List.mem_append,ih]
    simp [mem_upperItems,or_and_right,exists_or]

/-- Where an item of the lower layer is collected, the step's own upper items and those of earlier steps precede it. -/
theorem lower_split {front back : List (Layered α)}
    (split : offers key answered asks = front ++ ⟨.lower,x⟩::back) : ∃ before ask after,
    asks = before ++ ask::after ∧ x ∈ ask.lower ∧
      (answered (collectedKeys key answered before) ask && ask.hides x) = false ∧
      ∀ y ∈ upperItems (before ++ [ask]), ⟨.upper,y⟩ ∈ front := by
  induction asks using List.reverseRecOn generalizing back with
  | nil => simp [offers,offersAfter] at split
  | append_singleton asks ask ih =>
    rw [offers_concat] at split
    rcases split_append split with ⟨rest,earlier⟩ | ⟨rest,rfl,own⟩
    · obtain ⟨before,step,after,rfl,found⟩ := ih earlier
      exact ⟨before,step,after ++ [ask],by simp,found⟩
    · rcases split_append own with ⟨more,uppers⟩ | ⟨more,rfl,lowers⟩
      · have listed : (⟨.lower,x⟩ : Layered α) ∈ ask.uppers := by
          rw [uppers]
          simp
        simp at listed
      · have listed : (⟨.lower,x⟩ : Layered α) ∈ ask.lowers (answered (collectedKeys key answered asks) ask) := by
          rw [lowers]
          simp
        obtain ⟨_,member,shown⟩ := mem_lowers.mp listed
        refine ⟨asks,ask,[],rfl,member,shown,?_⟩
        intro y upper
        obtain ⟨step,inside,answer⟩ := mem_upperItems.mp upper
        rcases List.mem_append.mp inside with past | this
        · exact List.mem_append_left _ (upper_mem_offers.mpr (mem_upperItems.mpr ⟨step,past,answer⟩))
        · rw [List.mem_singleton.mp this] at answer
          exact List.mem_append_right _ (List.mem_append_left _ (mem_uppers.mpr ⟨rfl,answer⟩))

end Asks

section Replaced
variable {α κ : Type} (key : α → κ) (rank : α → Nat) (answered : List κ → Ask α → Bool)
  (stale : α → Prop)

/-- The upper layer has an item of the key by then, and one of the rank by then or of a higher rank later. -/
def Overridden (early late : List α) (x : α) : Prop :=
  (∃ y ∈ early, key y = key x ∧ rank x ≤ rank y) ∨
    ((∃ y ∈ early, key y = key x) ∧ ∃ y ∈ late, key y = key x ∧ rank x < rank y)

/-- Each item of the lower layer that the upper one replaces is left out, because the upper layer answered the
step with a key that it had not answered before, or is overridden. -/
def Covered (asks : List (Ask α)) : Prop := ∀ before ask after, asks = before ++ ask::after →
  ∀ x ∈ ask.lower, stale x → (answered ((upperItems before).map key) ask && ask.hides x) = true ∨
    Overridden key rank (upperItems (before ++ [ask])) (upperItems after) x

/-- No item of the lower layer that the upper one replaces is kept. -/
def Clean (kept : List (Slot α)) : Prop :=
  ∀ slot ∈ kept, ∀ x, x = slot.first ∨ x = slot.best → x.layer = .lower → ¬ stale x.item

def Settled (asks : List (Ask α)) : Prop :=
  ∀ x, ⟨.lower,x⟩ ∈ offers key answered asks → stale x → ∃ y ∈ upperItems asks, key y = key x

variable {key rank answered stale} {asks before after : List (Ask α)} {ask : Ask α} {x : α}

theorem Overridden.early {early late : List α} (overridden : Overridden key rank early late x) :
    ∃ y ∈ early, key y = key x := by
  rcases overridden with ⟨y,member,same,_⟩ | ⟨found,_⟩
  · exact ⟨y,member,same⟩
  · exact found

variable (keyed : ∀ x y, key x = key y → stale x → stale y) (uppers : ∀ ask ∈ asks, ∀ y ∈ ask.upper, stale y)
  (judged : ∀ seen earlier ask, (∀ y ∈ ask.upper, key y ∈ seen ↔ key y ∈ earlier) →
    answered seen ask = answered earlier ask)

include keyed judged in
theorem Settled.agrees (settled : Settled key answered stale before) (upper : ∀ y ∈ ask.upper, stale y) :
    answered (collectedKeys key answered before) ask = answered ((upperItems before).map key) ask := by
  refine judged _ _ _ (fun y member => ?_)
  unfold collectedKeys
  simp only [List.mem_map]
  constructor
  · intro ⟨z,collected,same⟩
    cases layer : z.layer with
    | upper =>
      rw [← Layered.of_layer layer] at collected
      exact ⟨z.item,upper_mem_offers.mp collected,same⟩
    | lower =>
      have lower : ⟨.lower,z.item⟩ ∈ offers key answered before := by rwa [Layered.of_layer layer]
      obtain ⟨w,answer,equal⟩ := settled z.item lower (keyed y z.item same.symm (upper y member))
      exact ⟨w,answer,equal.trans same⟩
  · intro ⟨z,answer,same⟩
    exact ⟨⟨.upper,z⟩,upper_mem_offers.mpr answer,same⟩

section Clean
variable [DecidableEq κ] (clean : Clean stale (slots key rank (offers key answered asks)))
include clean keyed

-- the first item of a key that the upper layer replaces is one of its own
theorem clean_first (split : asks = before ++ after) (collected : ⟨.lower,x⟩ ∈ offers key answered before)
    (replaced : stale x) : ∃ slot ∈ slots key rank (offers key answered asks), key slot.first.item = key x ∧
      slot.first.item ∈ upperItems before := by
  obtain ⟨more,extended⟩ := @offers_extend _ _ key answered before after
  rw [← split] at extended
  have known : (⟨.lower,x⟩ : Layered α) ∈ offers key answered asks := by
    rw [extended]
    exact List.mem_append_left _ collected
  obtain ⟨slot,stored,same⟩ := @slot_of_mem _ _ _ key rank _ _ known
  have first := (kept_slots stored).first
  rw [extended] at first
  have inside := first.prefix_mem collected same.symm
  refine ⟨slot,stored,same,?_⟩
  cases layer : slot.first.layer with
  | upper =>
    rw [← Layered.of_layer layer] at inside
    exact upper_mem_offers.mp inside
  | lower => exact absurd (keyed x _ same.symm replaced) (clean slot stored slot.first (.inl rfl) layer)

theorem clean_settled (split : asks = before ++ after) : Settled key answered stale before := by
  intro x collected replaced
  obtain ⟨slot,_,same,inside⟩ := clean_first keyed clean split collected replaced
  exact ⟨slot.first.item,inside,same⟩

include uppers judged in
theorem clean_covered : Covered key rank answered stale asks := by
  intro before ask after split x member replaced
  by_cases shown : (answered (collectedKeys key answered before) ask && ask.hides x) = true
  · have settled := clean_settled keyed clean split
    rw [settled.agrees keyed judged (uppers ask (by simp [split]))] at shown
    exact .inl shown
  · have whole : asks = (before ++ [ask]) ++ after := by simp [split]
    have collected : (⟨.lower,x⟩ : Layered α) ∈ offers key answered (before ++ [ask]) := by
      rw [offers_concat]
      exact List.mem_append_right _ (List.mem_append_right _ (mem_lowers.mpr ⟨rfl,member,Bool.eq_false_iff.mpr shown⟩))
    obtain ⟨slot,stored,same,early⟩ := clean_first keyed clean whole collected replaced
    obtain ⟨_,best,equal⟩ := kept_slots stored
    obtain ⟨more,extended⟩ := @offers_extend _ _ key answered (before ++ [ask]) after
    rw [← whole] at extended
    have bound := best.bound (by rw [extended]; exact List.mem_append_left _ collected) (same.symm.trans equal.symm)
    refine .inr ?_
    cases layer : slot.best.layer with
    | lower =>
      exact absurd (keyed x _ (same.symm.trans equal.symm) replaced) (clean slot stored slot.best (.inr rfl) layer)
    | upper =>
      have offered := best.mem
      rw [← Layered.of_layer layer] at offered
      have answer := upper_mem_offers.mp offered
      by_cases prior : slot.best.item ∈ upperItems (before ++ [ask])
      · exact .inl ⟨slot.best.item,prior,equal.trans same,bound⟩
      · refine .inr ⟨⟨slot.first.item,early,same⟩,slot.best.item,?_,equal.trans same,?_⟩
        · rw [whole] at answer
          obtain ⟨step,inside,listed⟩ := mem_upperItems.mp answer
          rcases List.mem_append.mp inside with past | later
          · exact absurd (mem_upperItems.mpr ⟨step,past,listed⟩) prior
          · exact mem_upperItems.mpr ⟨step,later,listed⟩
        · rw [extended] at best
          refine best.prefix_lt ?_ collected (same.symm.trans equal.symm)
          intro inside
          rw [← Layered.of_layer layer] at inside
          exact prior (upper_mem_offers.mp inside)

end Clean

section Covered
variable (covered : Covered key rank answered stale asks)
include covered keyed uppers judged

theorem covered_settled (split : asks = before ++ after) : Settled key answered stale before := by
  induction before using List.reverseRecOn generalizing after with
  | nil =>
    intro x collected
    simp [offers,offersAfter] at collected
  | append_singleton before ask ih =>
    have apart : asks = before ++ ask::after := by simp [split]
    have settled := ih apart
    intro x collected replaced
    rw [offers_concat,List.mem_append] at collected
    rcases collected with earlier | this
    · obtain ⟨y,answer,same⟩ := settled x earlier replaced
      obtain ⟨step,inside,listed⟩ := mem_upperItems.mp answer
      exact ⟨y,mem_upperItems.mpr ⟨step,List.mem_append_left _ inside,listed⟩,same⟩
    · rcases List.mem_append.mp this with upper | lower
      · simp at upper
      · obtain ⟨_,member,shown⟩ := mem_lowers.mp lower
        rw [settled.agrees keyed judged (uppers ask (by simp [apart]))] at shown
        rcases covered before ask after apart x member replaced with hidden | overridden
        · rw [shown] at hidden
          cases hidden
        · exact overridden.early

theorem covered_clean [DecidableEq κ] : Clean stale (slots key rank (offers key answered asks)) := by
  intro slot stored x which lower replaced
  obtain ⟨first,best,_⟩ := kept_slots stored
  have faces : ∃ front back, offers key answered asks = front ++ x::back ∧
      ((∀ y ∈ front, key y.item ≠ key x.item) ∨
        (∀ y ∈ front, key y.item = key x.item → rank y.item < rank x.item) ∧
          ∀ y ∈ back, key y.item = key x.item → rank y.item ≤ rank x.item) := by
    rcases which with rfl | rfl
    · obtain ⟨front,back,split,new⟩ := first.split
      exact ⟨front,back,split,.inl new⟩
    · obtain ⟨front,back,split,ranked⟩ := best.split
      exact ⟨front,back,split,.inr ranked⟩
  obtain ⟨front,back,split,faces⟩ := faces
  rw [← Layered.of_layer lower] at split
  obtain ⟨before,ask,after,apart,member,shown,preceding⟩ := lower_split split
  have settled := covered_settled keyed uppers judged covered apart
  rw [settled.agrees keyed judged (uppers ask (by simp [apart]))] at shown
  rcases covered before ask after apart x.item member replaced with hidden | overridden
  · rw [shown] at hidden
    cases hidden
  · rcases faces with new | ⟨lesser,bounded⟩
    · obtain ⟨y,answer,same⟩ := overridden.early
      exact new _ (preceding y answer) same
    · rcases overridden with ⟨y,answer,same,rank⟩ | ⟨_,y,answer,same,rank⟩
      · exact absurd (lesser _ (preceding y answer) same) (Nat.not_lt.mpr rank)
      · have collected : (⟨.upper,y⟩ : Layered α) ∈ offers key answered asks := by
          apply upper_mem_offers.mpr
          obtain ⟨step,inside,listed⟩ := mem_upperItems.mp answer
          exact mem_upperItems.mpr ⟨step,by rw [apart]; simp [inside],listed⟩
        rw [split] at collected
        rcases List.mem_append.mp collected with earlier | later
        · exact absurd (lesser _ earlier same) (Nat.not_lt.mpr (Nat.le_of_lt rank))
        · rcases List.mem_cons.mp later with itself | later
          · cases itself
          · exact absurd (bounded _ later same) (Nat.not_le.mpr rank)

end Covered

include keyed uppers judged in
/-- The upper layer replaces the lower one exactly where each step is covered. -/
theorem clean_iff_covered [DecidableEq κ] : Clean stale (slots key rank (offers key answered asks)) ↔
    Covered key rank answered stale asks :=
  ⟨clean_covered keyed uppers judged,fun covered => covered_clean keyed uppers judged covered⟩

end Replaced

end Semindex.Layers
