import Mathlib.Data.List.Sort

/-! Ordered selections and keyset pagination. A selection sorts rows by a key of
a linear order; a caller that continues after the last row of each full page
sees the whole selection, as long as the query accepts the rows that end a
full page as positions to continue from. -/
namespace Semindex.Relational

section Order
variable {α κ : Type} (key : α → κ)

def Distinct (rows : List α) : Prop := rows.Pairwise (fun a b => key a ≠ key b)

theorem Distinct.filter {key : α → κ} {rows : List α} (distinct : Distinct key rows) (p : α → Bool) :
    Distinct key (rows.filter p) := List.Pairwise.filter p distinct

variable [LinearOrder κ]

-- `ORDER BY`
def orderBy (rows : List α) : List α := rows.insertionSort (fun a b => key a ≤ key b)

-- how many rows come up to and including the place of `row`
def rank (rows : List α) (row : α) : Nat := rows.countP (fun other => key other ≤ key row)

variable {key}

@[simp] theorem mem_orderBy {rows : List α} {row : α} : row ∈ orderBy key rows ↔ row ∈ rows :=
  List.mem_insertionSort _

theorem orderBy_perm (rows : List α) : (orderBy key rows).Perm rows := List.perm_insertionSort _ rows

theorem orderBy_pairwise {rows : List α} (distinct : Distinct key rows) :
    (orderBy key rows).Pairwise (fun a b => key a < key b) := by
  have total : Std.Total (fun a b : α => key a ≤ key b) := ⟨fun a b => le_total (key a) (key b)⟩
  have transitive : IsTrans α (fun a b : α => key a ≤ key b) := ⟨fun a b c => le_trans⟩
  have sorted := List.pairwise_insertionSort (fun a b : α => key a ≤ key b) rows
  have apart : (orderBy key rows).Pairwise (fun a b => key a ≠ key b) :=
    ((orderBy_perm rows).pairwise_iff Ne.symm).mpr distinct
  exact (sorted.and apart).imp (fun both => lt_of_le_of_ne both.1 both.2)

theorem sorted_ext {first second : List α} (sortedFirst : first.Pairwise (fun a b => key a < key b))
    (sortedSecond : second.Pairwise (fun a b => key a < key b)) (same : ∀ row, row ∈ first ↔ row ∈ second) :
    first = second := by
  have irreflexive : Std.Irrefl (fun a b : α => key a < key b) := ⟨fun a => lt_irrefl (key a)⟩
  have antisymmetric : Std.Antisymm (fun a b : α => key a < key b) :=
    ⟨fun _ _ before after => absurd after (lt_asymm before)⟩
  exact List.Pairwise.eq_of_mem_iff sortedFirst sortedSecond same

theorem orderBy_filter {rows : List α} (distinct : Distinct key rows) (p : α → Bool) :
    orderBy key (rows.filter p) = (orderBy key rows).filter p := by
  apply sorted_ext (orderBy_pairwise (distinct.filter p)) ((orderBy_pairwise distinct).filter p)
  intro row
  simp

theorem filter_after {whole : List α} (sorted : whole.Pairwise (fun a b => key a < key b)) {n : Nat} {row : α}
    (here : whole[n]? = some row) : whole.filter (fun other => key row < key other) = whole.drop (n+1) := by
  induction whole generalizing n with
  | nil => simp at here
  | cons head rest ih =>
    obtain ⟨above,tail⟩ := List.pairwise_cons.mp sorted
    cases n with
    | zero =>
      obtain rfl : head = row := by simpa using here
      rw [List.filter_cons_of_neg (by simp)]
      exact List.filter_eq_self.mpr (fun other member => by simpa using above other member)
    | succ n =>
      have inside : rest[n]? = some row := by simpa using here
      have before := above row (List.mem_of_getElem? inside)
      rw [List.filter_cons_of_neg (by simpa using before.le),ih tail inside]
      rfl

theorem rank_sorted {whole : List α} (sorted : whole.Pairwise (fun a b => key a < key b)) {n : Nat} {row : α}
    (here : whole[n]? = some row) : rank key whole row = n+1 := by
  induction whole generalizing n with
  | nil => simp at here
  | cons head rest ih =>
    obtain ⟨above,tail⟩ := List.pairwise_cons.mp sorted
    cases n with
    | zero =>
      obtain rfl : head = row := by simpa using here
      have later : rest.countP (fun other => key other ≤ key head) = 0 := by
        rw [List.countP_eq_zero]
        intro other member
        simpa using above other member
      simp [rank,later]
    | succ n =>
      have inside : rest[n]? = some row := by simpa using here
      have before := above row (List.mem_of_getElem? inside)
      have counted : rank key rest row = n+1 := ih tail inside
      unfold rank at counted ⊢
      simp [counted,before.le]

theorem rank_orderBy (rows : List α) (row : α) : rank key (orderBy key rows) row = rank key rows row :=
  (orderBy_perm rows).countP_eq _

end Order

section Loop
variable {α γ κ : Type}

/-- The loop of a caller: a full page is followed by the query after its last row, a short page
is the last one. There is no result where a query fails, or after `calls` full pages. -/
def paginate (query : Option γ → Option (List α)) (cursor : α → γ) (limit : Nat) :
    Nat → Option γ → Option (List α)
  | 0,_ => none
  | calls + 1,after =>
    match query after with
    | none => none
    | some page =>
      if page.length = limit then
        (paginate query cursor limit calls (page.getLast?.map cursor)).map (fun rest => page ++ rest)
      else some page

/-- A query that answers with the rows after the cursor, where it accepts the cursor. -/
structure Seeks [LinearOrder κ] (key : α → κ) (place : γ → κ) (accepts : γ → Bool) (whole : List α)
    (limit : Nat) (query : Option γ → Option (List α)) : Prop where
  first : query none = some (whole.take limit)
  next : ∀ c, query (some c) = if accepts c then
    some ((whole.filter (fun row => place c < key row)).take limit) else none

-- the caller has seen the first `n` rows
def Seen (cursor : α → γ) (whole : List α) (limit n : Nat) (after : Option γ) : Prop :=
  limit ∣ n ∧ (n = 0 ∧ after = none ∨ ∃ row, 0 < n ∧ whole[n-1]? = some row ∧ after = some (cursor row))

variable [LinearOrder κ] {key : α → κ} {place : γ → κ} {accepts : γ → Bool} {whole : List α} {limit : Nat}
  {query : Option γ → Option (List α)} {cursor : α → γ}

theorem Seeks.page (seeks : Seeks key place accepts whole limit query)
    (sorted : whole.Pairwise (fun a b => key a < key b)) (placed : ∀ row ∈ whole, place (cursor row) = key row)
    {n : Nat} {after : Option γ} (seen : Seen cursor whole limit n after) :
    query after = if after.all accepts then some ((whole.drop n).take limit) else none := by
  obtain ⟨_,⟨rfl,rfl⟩ | ⟨row,positive,here,rfl⟩⟩ := seen
  · simpa using seeks.first
  · rw [seeks.next,placed row (List.mem_of_getElem? here),filter_after sorted here,Nat.sub_add_cancel positive]
    rfl

theorem Seen.next (positive : 0 < limit) {n : Nat} {after : Option γ} (seen : Seen cursor whole limit n after)
    (full : ((whole.drop n).take limit).length = limit) :
    Seen cursor whole limit (n+limit) ((((whole.drop n).take limit).getLast?).map cursor) := by
  have enough : n + limit ≤ whole.length := by
    rw [List.length_take,List.length_drop] at full
    omega
  have last : ((whole.drop n).take limit).getLast? = whole[n+limit-1]? := by
    rw [List.getLast?_eq_getElem?,full,List.getElem?_take_of_lt (by omega),List.getElem?_drop]
    congr 1
    omega
  refine ⟨Nat.dvd_add seen.1 (Nat.dvd_refl limit),.inr ⟨whole[n+limit-1],by omega,?_,?_⟩⟩
  · exact List.getElem?_eq_getElem (by omega)
  · rw [last,List.getElem?_eq_getElem (by omega),Option.map_some]

theorem paginate_complete (seeks : Seeks key place accepts whole limit query)
    (sorted : whole.Pairwise (fun a b => key a < key b)) (placed : ∀ row ∈ whole, place (cursor row) = key row)
    (positive : 0 < limit) {n : Nat} {after : Option γ} (seen : Seen cursor whole limit n after)
    (accepted : ∀ m row, whole[m]? = some row → n ≤ m+1 → limit ∣ m+1 → accepts (cursor row) = true)
    (calls : Nat) (enough : whole.length < n + calls) :
    paginate query cursor limit calls after = some (whole.drop n) := by
  induction calls generalizing n after with
  | zero =>
    obtain ⟨_,⟨rfl,_⟩ | ⟨row,_,here,_⟩⟩ := seen
    · omega
    · have inside := (List.getElem?_eq_some_iff.mp here).1
      omega
  | succ calls ih =>
    have known : after.all accepts = true := by
      obtain ⟨divides,⟨rfl,rfl⟩ | ⟨row,start,here,rfl⟩⟩ := seen
      · rfl
      · exact accepted (n-1) row here (by omega) (by rwa [Nat.sub_add_cancel start])
    rw [paginate,seeks.page sorted placed seen,if_pos known]
    dsimp only
    split
    · rename_i full
      rw [ih (seen.next positive full)
          (fun m row here later divides => accepted m row here (by omega) divides) (by omega),
        Option.map_some,← List.drop_drop,List.take_append_drop]
    · rename_i short
      rw [List.length_take,List.length_drop] at short
      rw [List.take_of_length_le (by rw [List.length_drop]; omega)]

theorem paginate_accepted (seeks : Seeks key place accepts whole limit query)
    (sorted : whole.Pairwise (fun a b => key a < key b)) (placed : ∀ row ∈ whole, place (cursor row) = key row)
    (positive : 0 < limit) {calls : Nat} {n : Nat} {after : Option γ} {rows : List α}
    (seen : Seen cursor whole limit n after) (paged : paginate query cursor limit calls after = some rows)
    (m : Nat) (row : α) (here : whole[m]? = some row) (later : n ≤ m+1) (divides : limit ∣ m+1) :
    accepts (cursor row) = true := by
  induction calls generalizing n after rows with
  | zero => simp [paginate] at paged
  | succ calls ih =>
    rw [paginate,seeks.page sorted placed seen] at paged
    by_cases known : after.all accepts = true
    · rw [if_pos known] at paged
      dsimp only at paged
      by_cases this : n = m+1
      · obtain ⟨_,⟨rfl,_⟩ | ⟨other,_,there,rfl⟩⟩ := seen
        · omega
        · rw [this,Nat.add_sub_cancel,here] at there
          cases Option.some.inj there
          simpa using known
      · have inside := (List.getElem?_eq_some_iff.mp here).1
        have far : n + limit ≤ m+1 := by
          obtain ⟨a,rfl⟩ := seen.1
          obtain ⟨b,equal⟩ := divides
          rw [equal] at later this ⊢
          have bound : a < b := by
            by_contra beyond
            exact this (Nat.le_antisymm later (Nat.mul_le_mul_left limit (by omega)))
          calc
            limit*a + limit = limit*(a+1) := by rw [Nat.mul_succ]
            _ ≤ limit*b := Nat.mul_le_mul_left limit bound
        have full : ((whole.drop n).take limit).length = limit := by
          rw [List.length_take,List.length_drop]
          omega
        rw [if_pos full] at paged
        obtain ⟨rest,continued,_⟩ := Option.map_eq_some_iff.mp paged
        exact ih (seen.next positive full) continued far
    · rw [if_neg known] at paged
      contradiction

/-- The pages make up the whole selection just where each row that ends a full page is accepted. -/
theorem paginate_iff (seeks : Seeks key place accepts whole limit query)
    (sorted : whole.Pairwise (fun a b => key a < key b)) (placed : ∀ row ∈ whole, place (cursor row) = key row)
    (positive : 0 < limit) :
    (∃ calls, paginate query cursor limit calls none = some whole) ↔
      ∀ row ∈ whole, limit ∣ rank key whole row → accepts (cursor row) = true := by
  have start : Seen cursor whole limit 0 none := ⟨Nat.dvd_zero limit,.inl ⟨rfl,rfl⟩⟩
  constructor
  · intro ⟨calls,paged⟩ row member divides
    obtain ⟨m,here⟩ := List.mem_iff_getElem?.mp member
    rw [rank_sorted sorted here] at divides
    exact paginate_accepted seeks sorted placed positive start paged m row here (by omega) divides
  · intro accepted
    refine ⟨whole.length+1,paginate_complete seeks sorted placed positive start ?_ _ (by omega)⟩
    intro m row here _ divides
    exact accepted row (List.mem_of_getElem? here) (by rwa [rank_sorted sorted here])

end Loop

section Complete
variable {α ρ γ κ : Type}

-- `LIMIT`, where 0 stands for no limit
def limited (limit : Nat) (rows : List α) : List α := if limit = 0 then rows else rows.take limit

theorem limited_map (limit : Nat) (f : α → ρ) (rows : List α) :
    (limited limit rows).map f = limited limit (rows.map f) := by
  unfold limited
  split
  · rfl
  · exact List.map_take

/-- The pages are the result without a limit: the same rows in the same order, each once. -/
def Complete (query : Option γ → Nat → Option (List ρ)) (cursor : ρ → γ) (limit : Nat) : Prop :=
  ∃ whole, query none 0 = some whole ∧ Distinct cursor whole ∧
    ∃ calls, paginate (fun after => query after limit) cursor limit calls none = some whole

variable [LinearOrder κ] {order : α → κ} {record : α → ρ} {cursor : ρ → γ} {place : γ → κ} {accepts : γ → Bool}
  {rows : List α} {limit : Nat} {query : Option γ → Nat → Option (List ρ)}

variable (accepts) in
/-- Keyset pagination. The rows that match are sorted by the very key that a cursor is compared with. -/
theorem keyset_complete_iff (distinct : Distinct order rows) (positive : 0 < limit)
    (placed : ∀ row ∈ rows, place (cursor (record row)) = order row)
    (unlimited : query none 0 = some ((orderBy order rows).map record))
    (answers : ∀ after, query after limit = if after.all accepts then
      some (limited limit ((orderBy order
        (rows.filter (fun row => after.all (fun c => place c < order row)))).map record)) else none) :
    Complete query cursor limit ↔
      ∀ row ∈ rows, limit ∣ rank order rows row → accepts (cursor (record row)) = true := by
  have sorted := orderBy_pairwise distinct
  have ordered : ((orderBy order rows).map record).Pairwise
      (fun a b => place (cursor a) < place (cursor b)) := by
    rw [List.pairwise_map]
    refine List.Pairwise.imp_of_mem ?_ sorted
    intro a b memberA memberB before
    rwa [placed a (mem_orderBy.mp memberA),placed b (mem_orderBy.mp memberB)]
  have seeks : Seeks (fun r => place (cursor r)) place accepts ((orderBy order rows).map record) limit
      (fun after => query after limit) := by
    constructor
    · rw [answers]
      simp [limited,Nat.ne_of_gt positive]
    · intro c
      have filtered : ((orderBy order rows).map record).filter (fun r => place c < place (cursor r)) =
          ((orderBy order rows).filter (fun row => place c < order row)).map record := by
        rw [List.filter_map]
        congr 1
        apply List.filter_congr
        intro row member
        simp only [Function.comp_apply,placed row (mem_orderBy.mp member)]
      rw [answers,filtered]
      simp only [Option.all_some,orderBy_filter distinct,limited,if_neg (Nat.ne_of_gt positive)]
  have ranks : ∀ row ∈ rows, rank (fun r => place (cursor r)) ((orderBy order rows).map record) (record row) =
      rank order rows row := by
    intro row member
    rw [← rank_orderBy rows row]
    unfold rank
    rw [List.countP_map]
    apply List.countP_congr
    intro other inside
    simp only [Function.comp_apply,placed row member,placed other (mem_orderBy.mp inside)]
  have paged := paginate_iff seeks ordered (fun _ _ => rfl) positive
  have all : Complete query cursor limit ↔
      ∃ calls, paginate (fun after => query after limit) cursor limit calls none =
        some ((orderBy order rows).map record) := by
    have once : Distinct cursor ((orderBy order rows).map record) :=
      ordered.imp (fun before same => absurd before (by rw [same]; exact lt_irrefl _))
    simp [Complete,unlimited,once]
  rw [all,paged]
  constructor
  · intro accepted row member divides
    exact accepted (record row) (List.mem_map.mpr ⟨row,mem_orderBy.mpr member,rfl⟩)
      (by rwa [ranks row member])
  · intro accepted r member divides
    obtain ⟨row,inside,rfl⟩ := List.mem_map.mp member
    rw [ranks row (mem_orderBy.mp inside)] at divides
    exact accepted row (mem_orderBy.mp inside) divides

theorem not_complete_of_rejected (rejected : ∀ after, query after limit = none) :
    ¬ Complete query cursor limit := by
  intro ⟨whole,_,_,calls,paged⟩
  cases calls with
  | zero => simp [paginate] at paged
  | succ calls => simp [paginate,rejected] at paged

end Complete

section Keys
variable {α κ : Type} [DecidableEq κ] {key : α → κ}

-- the items behind the one with this key
def behind (key : α → κ) (cursor : κ) (items : List α) : List α := (items.dropWhile (fun item => key item ≠ cursor)).tail

def remaining (key : α → κ) (items : List α) : Option κ → List α
  | none => items
  | some cursor => behind key cursor items

/-- The pages that a caller sees who follows their cursors, with a limit of its own for each page. There is no result
where a page fails, or after so many calls. -/
def follow (page : Option κ → Nat → Option (List α × Option κ)) (limits : Nat → Nat) :
    Nat → Nat → Option κ → Option (List α)
  | 0, _, _ => none
  | calls+1, n, cursor =>
    match page cursor (limits n) with
    | none => none
    | some (items,none) => some items
    | some (items,some next) => (follow page limits calls (n+1) (some next)).map (items ++ ·)

theorem behind_append {front back : List α} {item : α} (distinct : Distinct key (front ++ item::back)) :
    behind key (key item) (front ++ item::back) = back := by
  have others : ∀ other ∈ front, decide (key other ≠ key item) = true := fun other member =>
    decide_eq_true ((List.pairwise_append.mp distinct).2.2 other member item List.mem_cons_self)
  rw [behind,List.dropWhile_append_of_pos others,List.dropWhile_cons_of_neg (by simp),List.tail_cons]

/-- A page is the next so many items, with the key of the last one where there are more. -/
def pageOf (key : α → κ) (rest : List α) (limit : Nat) : List α × Option κ :=
  (rest.take limit,if limit < rest.length then (rest.take limit).getLast?.map key else none)

theorem follow_all {items : List α} {page : Option κ → Nat → Option (List α × Option κ)} {limits : Nat → Nat}
    (distinct : Distinct key items) (positive : ∀ n, 1 ≤ limits n)
    (pages : ∀ cursor n, (∀ c, cursor = some c → c ∈ items.map key) → page cursor (limits n) =
      some (pageOf key (remaining key items cursor) (limits n))) :
    ∃ calls, follow page limits calls 0 none = some items := by
  -- by the length of what is left
  have run (len : Nat) : ∀ n cursor, (∀ c, cursor = some c → c ∈ items.map key) → remaining key items cursor <:+ items →
      (remaining key items cursor).length = len →
        ∃ calls, follow page limits calls n cursor = some (remaining key items cursor) := by
    induction len using Nat.strong_induction_on with
    | _ len ih =>
      intro n cursor known suffix length
      have answer := pages cursor n known
      generalize remaining key items cursor = rest at answer suffix length
      by_cases more : limits n < rest.length
      · obtain ⟨front,last,whole⟩ : ∃ front last, rest.take (limits n) = front ++ [last] := by
          have some : rest.take (limits n) ≠ [] := by
            have := positive n
            rw [← List.length_pos_iff,List.length_take]
            omega
          exact ⟨_,_,(List.dropLast_append_getLast some).symm⟩
        have cut : rest = front ++ last::rest.drop (limits n) := by
          conv_lhs => rw [← List.take_append_drop (limits n) rest,whole]
          simp
        obtain ⟨before,same⟩ := suffix
        have place : items = (before ++ front) ++ last::rest.drop (limits n) := by
          rw [← same,List.append_assoc,← cut]
        have next : remaining key items (some (key last)) = rest.drop (limits n) := by
          have apart := distinct
          rw [place] at apart
          change behind key (key last) items = _
          rw [place,behind_append apart]
        have member : last ∈ items := by rw [place]; simp
        have shorter : (rest.drop (limits n)).length < len := by
          have := positive n
          rw [List.length_drop]
          omega
        obtain ⟨calls,others⟩ := ih _ shorter (n+1) (some (key last))
          (fun c same => Option.some.inj same ▸ List.mem_map_of_mem member)
          (by rw [next,place]; exact ⟨(before ++ front) ++ [last],by simp⟩) (by rw [next])
        refine ⟨calls+1,?_⟩
        rw [follow,answer,pageOf,if_pos more,whole]
        simp only [List.getLast?_append,List.getLast?_singleton,Option.some_or,Option.map_some]
        rw [others,next]
        conv_rhs => rw [cut]
        simp
      · refine ⟨1,?_⟩
        rw [follow,answer,pageOf,if_neg more]
        simp only [Option.some.injEq]
        exact List.take_of_length_le (by omega)
  exact run _ 0 none (fun c impossible => by cases impossible) List.suffix_rfl rfl

end Keys

section Positions
variable {α β κ : Type} {form : α → β} {key : α → κ} {page : Option κ → Nat → Option (List β × Option κ)}
  {limits : Nat → Nat} {items : List α} {accepts : α → Prop} [DecidablePred accepts]

-- a page as it is shown
def shownPage (form : α → β) (key : α → κ) (rest : List α) (limit : Nat) : List β × Option κ :=
  ((pageOf key rest limit).1.map form,(pageOf key rest limit).2)

-- how many items the pages before the `n`th have
def passed (limits : Nat → Nat) : Nat → Nat
  | 0 => 0
  | n+1 => passed limits n + limits n

-- the item whose key leads to the `n`th page
def turning (limits : Nat → Nat) (items : List α) (n : Nat) : Option α :=
  if n = 0 then none else items[passed limits n - 1]?

theorem passed_positive (positive : ∀ n, 1 ≤ limits n) {n : Nat} (later : n ≠ 0) : 0 < passed limits n := by
  cases n with
  | zero => exact absurd rfl later
  | succ n =>
    have := positive n
    rw [passed]
    omega

theorem passed_mono {n m : Nat} (before : n ≤ m) : passed limits n ≤ passed limits m := by
  induction m with
  | zero =>
    rw [Nat.le_zero.mp before]
  | succ m ih =>
    rcases Nat.le_succ_iff.mp before with less | same
    · exact (ih less).trans (Nat.le_add_right _ _)
    · rw [same]

theorem passed_grows (positive : ∀ n, 1 ≤ limits n) (n : Nat) : n ≤ passed limits n := by
  induction n with
  | zero => exact Nat.zero_le _
  | succ n ih =>
    have := positive n
    rw [passed]
    omega

/-- A page that answers with what stands behind an item, where it accepts the key of the item. -/
structure Turns (form : α → β) (key : α → κ) (page : Option κ → Nat → Option (List β × Option κ)) (limits : Nat → Nat)
    (items : List α) (accepts : α → Prop) [DecidablePred accepts] : Prop where
  positive : ∀ n, 1 ≤ limits n
  first : ∀ n, page none (limits n) = some (shownPage form key items (limits n))
  next : ∀ n m item, items[m]? = some item → page (some (key item)) (limits n) =
    if accepts item then some (shownPage form key (items.drop (m+1)) (limits n)) else none

theorem Turns.answer (turns : Turns form key page limits items accepts) {n : Nat} (inside : passed limits n ≤ items.length) :
    page ((turning limits items n).map key) (limits n) =
      if ∀ item, turning limits items n = some item → accepts item then
        some (shownPage form key (items.drop (passed limits n)) (limits n)) else none := by
  unfold turning
  by_cases start : n = 0
  · subst start
    simpa [passed] using turns.first 0
  · have ahead := passed_positive turns.positive start
    have before : passed limits n - 1 < items.length := by omega
    have here := List.getElem?_eq_getElem before
    rw [if_neg start,here,Option.map_some,turns.next n _ _ here,Nat.sub_add_cancel ahead]
    simp

theorem Turns.cursor (turns : Turns form key page limits items accepts) {n : Nat} (more : passed limits (n+1) < items.length) :
    shownPage form key (items.drop (passed limits n)) (limits n) =
      (((items.drop (passed limits n)).take (limits n)).map form,(turning limits items (n+1)).map key) := by
  have least := turns.positive n
  have left : limits n < (items.drop (passed limits n)).length := by
    rw [passed] at more
    rw [List.length_drop]
    omega
  have last : ((items.drop (passed limits n)).take (limits n)).getLast? = turning limits items (n+1) := by
    rw [turning,if_neg (Nat.succ_ne_zero n),List.getLast?_eq_getElem?,List.length_take_of_le left.le,
      List.getElem?_take_of_lt (by omega),List.getElem?_drop,passed]
    congr 1
    omega
  rw [shownPage,pageOf,if_pos left,last]

theorem Turns.last {n : Nat} (beyond : items.length ≤ passed limits (n+1)) :
    shownPage form key (items.drop (passed limits n)) (limits n) = ((items.drop (passed limits n)).map form,none) := by
  rw [passed] at beyond
  rw [shownPage,pageOf,if_neg (by rw [List.length_drop]; omega),List.take_of_length_le (by rw [List.length_drop]; omega)]

theorem Turns.accepted (turns : Turns form key page limits items accepts) {calls n : Nat} {rows : List β}
    (inside : passed limits n ≤ items.length) (followed : follow page limits calls n ((turning limits items n).map key) = some rows)
    {m : Nat} (later : n ≤ m) (more : passed limits m < items.length) {item : α} (here : turning limits items m = some item) :
    accepts item := by
  induction calls generalizing n rows with
  | zero => cases followed
  | succ calls ih =>
    rw [follow,turns.answer inside] at followed
    split_ifs at followed with known
    · rcases Nat.eq_or_lt_of_le later with rfl | before
      · exact known item here
      · have next : passed limits (n+1) < items.length := (passed_mono before).trans_lt more
        have turned : (turning limits items (n+1)).isSome := by
          have := passed_positive turns.positive (Nat.succ_ne_zero n)
          simp only [turning,if_neg (Nat.succ_ne_zero n)]
          rw [List.getElem?_eq_getElem (by omega)]
          rfl
        obtain ⟨cursor,same⟩ := Option.isSome_iff_exists.mp turned
        rw [turns.cursor next,same,Option.map_some] at followed
        obtain ⟨rest,continued,_⟩ := Option.map_eq_some_iff.mp followed
        exact ih next.le (by rw [same]; exact continued) before

theorem Turns.complete (turns : Turns form key page limits items accepts)
    (accepted : ∀ n item, turning limits items n = some item → passed limits n < items.length → accepts item)
    {calls n : Nat} (inside : n = 0 ∨ passed limits n < items.length) (enough : items.length < n + calls) :
    follow page limits calls n ((turning limits items n).map key) = some ((items.drop (passed limits n)).map form) := by
  induction calls generalizing n with
  | zero =>
    have := passed_grows turns.positive n
    rcases inside with rfl | inside <;> omega
  | succ calls ih =>
    have within : passed limits n ≤ items.length := by
      rcases inside with rfl | inside
      · exact Nat.zero_le _
      · exact inside.le
    have known : ∀ item, turning limits items n = some item → accepts item := by
      intro item here
      rcases inside with rfl | inside
      · cases here
      · exact accepted n item here inside
    rw [follow,turns.answer within,if_pos known]
    rcases Nat.lt_or_ge (passed limits (n+1)) items.length with more | beyond
    · have ahead := passed_positive turns.positive (Nat.succ_ne_zero n)
      have before : passed limits (n+1) - 1 < items.length := by omega
      have turned : turning limits items (n+1) = some items[passed limits (n+1) - 1] := by
        rw [turning,if_neg (Nat.succ_ne_zero n),List.getElem?_eq_getElem before]
      have rest := ih (.inr more) (by omega)
      rw [turned,Option.map_some] at rest
      rw [turns.cursor more,turned,Option.map_some]
      dsimp only
      rw [rest,Option.map_some,passed,← List.drop_drop,← List.map_append,List.take_append_drop]
    · rw [Turns.last beyond]

/-- The pages make up all the items just where each item that leads to a further page is accepted. -/
theorem Turns.follow_iff (turns : Turns form key page limits items accepts) :
    (∃ calls, follow page limits calls 0 none = some (items.map form)) ↔
      ∀ n item, turning limits items n = some item → passed limits n < items.length → accepts item := by
  constructor
  · intro ⟨calls,followed⟩ n item here more
    exact turns.accepted (Nat.zero_le _) followed (Nat.zero_le n) more here
  · intro accepted
    exact ⟨items.length+1,turns.complete accepted (.inl rfl) (by omega)⟩

end Positions

end Semindex.Relational
