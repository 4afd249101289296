import Mathlib.Data.List.Basic
import Mathlib.Data.List.TakeWhile

/-! Sequences cut at a delimiter. The last piece need not be closed by one; it is
there only if it has elements. -/
namespace Semindex.Delimited

section Closed
variable {α : Type} (mark : α)

-- each piece with the delimiter behind it
def closed (parts : List (List α)) : List α := parts.flatMap (fun part => part ++ [mark])

variable {mark}

theorem closed_cons (part : List α) (parts : List (List α)) :
    closed mark (part::parts) = part ++ mark::closed mark parts := by simp [closed]

theorem closed_last {parts : List (List α)} (present : parts ≠ []) : (closed mark parts).getLast? = some mark := by
  obtain ⟨front,last,same⟩ := (List.eq_nil_or_concat parts).resolve_left present
  rw [same,List.concat_eq_append,closed,List.flatMap_append]
  simp

end Closed

section Separated
variable {α : Type} (separator : List α)

-- a loop that writes the separator before all but the first
def listed : Bool → List (List α) → List α
  | _, [] => []
  | first, part::parts => (if first then [] else separator) ++ part ++ listed false parts

end Separated

section Pieces
variable {α : Type} [DecidableEq α] (mark : α)

def pieces : List α → List (List α)
  | [] => []
  | a::rest =>
    if a = mark then []::pieces rest
    else match pieces rest with
      | [] => [[a]]
      | piece::others => (a::piece)::others

variable {mark} {part rest : List α}

theorem takeWhile_cut (fresh : mark ∉ part) (rest : List α) :
    (part ++ mark::rest).takeWhile (· ≠ mark) = part ∧ (part ++ mark::rest).dropWhile (· ≠ mark) = mark::rest := by
  have plain : ∀ a ∈ part, (decide (a ≠ mark)) = true := by
    intro a member
    exact decide_eq_true (fun same => fresh (same ▸ member))
  rw [List.takeWhile_append_of_pos plain,List.dropWhile_append_of_pos plain]
  simp

theorem takeWhile_whole (fresh : mark ∉ part) : part.takeWhile (· ≠ mark) = part ∧ part.dropWhile (· ≠ mark) = [] := by
  have plain : ∀ a ∈ part, (decide (a ≠ mark)) = true := by
    intro a member
    exact decide_eq_true (fun same => fresh (same ▸ member))
  exact ⟨List.takeWhile_eq_self_iff.mpr plain,List.dropWhile_eq_nil_iff.mpr plain⟩

theorem pieces_cut (fresh : mark ∉ part) (rest : List α) : pieces mark (part ++ mark::rest) = part::pieces mark rest := by
  induction part with
  | nil => simp [pieces]
  | cons a part ih =>
    obtain ⟨other,inside⟩ := not_or.mp (List.mem_cons.not.mp fresh)
    rw [List.cons_append,pieces,if_neg (Ne.symm other),ih inside]

theorem pieces_last (fresh : mark ∉ part) (present : part ≠ []) : pieces mark part = [part] := by
  induction part with
  | nil => exact (present rfl).elim
  | cons a part ih =>
    obtain ⟨other,inside⟩ := not_or.mp (List.mem_cons.not.mp fresh)
    rw [pieces,if_neg (Ne.symm other)]
    cases part with
    | nil => rfl
    | cons b part => rw [ih inside (by simp)]

/-- A sequence is a last piece, or a piece with a delimiter behind it and the rest. -/
theorem first_cut (sequence : List α) : mark ∉ sequence ∨
    ∃ part rest, sequence = part ++ mark::rest ∧ mark ∉ part := by
  by_cases inside : mark ∈ sequence
  · obtain ⟨part,rest,same,fresh⟩ := List.eq_append_cons_of_mem inside
    exact .inr ⟨part,rest,same,fresh⟩
  · exact .inl inside

@[elab_as_elim]
theorem cut_induction (mark : α) {motive : List α → Prop} (nil : motive [])
    (last : ∀ part, mark ∉ part → part ≠ [] → motive part)
    (cut : ∀ part rest, mark ∉ part → motive rest → motive (part ++ mark::rest)) (sequence : List α) :
    motive sequence := by
  rcases @first_cut α _ mark sequence with whole | ⟨part,rest,same,fresh⟩
  · by_cases empty : sequence = []
    · rw [empty]
      exact nil
    · exact last sequence whole empty
  · rw [same]
    exact cut part rest fresh (cut_induction mark nil last cut rest)
termination_by sequence.length
decreasing_by
  rw [same,List.length_append,List.length_cons]
  omega

theorem pieces_fresh (sequence : List α) : ∀ part ∈ pieces mark sequence, mark ∉ part := by
  induction sequence using cut_induction mark with
  | nil => simp [pieces]
  | last part fresh present => simpa [pieces_last fresh present] using fresh
  | cut part rest fresh ih => simpa [pieces_cut fresh] using ⟨fresh,ih⟩

theorem count_closed {parts : List (List α)} (fresh : ∀ part ∈ parts, mark ∉ part) :
    (closed mark parts).count mark = parts.length := by
  induction parts with
  | nil => rfl
  | cons part parts ih =>
    have front := List.count_eq_zero.mpr (fresh part List.mem_cons_self)
    have others := ih (fun part member => fresh part (List.mem_cons_of_mem _ member))
    rw [closed_cons,List.count_append,List.count_cons_self,front,others,List.length_cons]
    omega

/-- A sequence that ends in the delimiter is made of closed pieces. -/
theorem closed_pieces {sequence : List α} (ended : sequence.getLast? = some mark) :
    closed mark (pieces mark sequence) = sequence := by
  induction sequence using cut_induction mark with
  | nil => simp at ended
  | last part fresh present => exact (fresh (List.mem_of_getLast? ended)).elim
  | cut part rest fresh ih =>
    rw [pieces_cut fresh,closed_cons]
    by_cases done : rest = []
    · simp [done,pieces,closed]
    · rw [List.getLast?_append_cons,List.getLast?_cons_of_ne_nil done] at ended
      rw [ih ended]

end Pieces
section Reading
variable {α : Type} [DecidableEq α] (mark : α)

/-- A sequence that is read from its start, and what of it is still to come. -/
structure Cursor (α : Type) where
  content : List α
  rest : List α

def start (content : List α) : Cursor α := ⟨content,content⟩

-- the next piece with its delimiter, if it has one; `none` at the end
def getdelim (cursor : Cursor α) : Option (Cursor α × List α) :=
  if cursor.rest = [] then none
  else
    let text := cursor.rest.takeWhile (· ≠ mark)
    match cursor.rest.dropWhile (· ≠ mark) with
    | [] => some (⟨cursor.content,[]⟩,text)
    | _::after => some (⟨cursor.content,after⟩,text ++ [mark])

def unended (text : List α) : List α := if text.getLast? = some mark then text.dropLast else text

/-- So many pieces have been read. -/
def Cursor.At (cursor : Cursor α) (n : Nat) : Prop := pieces mark cursor.rest = (pieces mark cursor.content).drop n

variable {mark} {cursor : Cursor α} {n : Nat} {text : List α}

theorem unended_fresh (fresh : mark ∉ text) : unended mark text = text ∧ unended mark (text ++ [mark]) = text := by
  constructor
  · exact if_neg (fun last => fresh (List.mem_of_getLast? last))
  · simp [unended]

theorem start_at (content : List α) : (start content).At mark 0 := rfl

theorem getdelim_first (first : List α) (others : List (List α)) (split : pieces mark cursor.rest = first::others) :
    ∃ next text, getdelim mark cursor = some (next,text) ∧ unended mark text = first ∧ next.content = cursor.content ∧
      pieces mark next.rest = others := by
  unfold getdelim
  have present : cursor.rest ≠ [] := by
    intro empty
    rw [empty] at split
    cases split
  rw [if_neg present]
  dsimp only
  rcases @first_cut _ _ mark cursor.rest with whole | ⟨front,after,same,fresh⟩
  · rw [pieces_last whole present] at split
    cases split
    obtain ⟨front,back⟩ := takeWhile_whole whole
    rw [front,back]
    exact ⟨_,_,rfl,(unended_fresh whole).1,rfl,rfl⟩
  · rw [same,pieces_cut fresh] at split
    cases split
    obtain ⟨taken,dropped⟩ := takeWhile_cut fresh after
    rw [same,taken,dropped]
    exact ⟨_,_,rfl,(unended_fresh fresh).2,rfl,rfl⟩

theorem Cursor.At.getdelim_end (place : cursor.At mark n) (done : (pieces mark cursor.content).length ≤ n) :
    getdelim mark cursor = none := by
  unfold Cursor.At at place
  rw [List.drop_eq_nil_of_le done] at place
  rcases @first_cut _ _ mark cursor.rest with whole | ⟨front,after,same,fresh⟩
  · refine if_pos ?_
    by_contra present
    rw [pieces_last whole present] at place
    cases place
  · rw [same,pieces_cut fresh] at place
    cases place

theorem Cursor.At.getdelim_piece (place : cursor.At mark n) {piece : List α} (there : (pieces mark cursor.content)[n]? = some piece) :
    ∃ next text, getdelim mark cursor = some (next,text) ∧ unended mark text = piece ∧ next.content = cursor.content ∧
      next.At mark (n+1) := by
  obtain ⟨inside,same⟩ := List.getElem?_eq_some_iff.mp there
  have split : pieces mark cursor.rest = piece::(pieces mark cursor.content).drop (n+1) := by
    rw [place,← same]
    exact List.drop_eq_getElem_cons inside
  obtain ⟨next,text,read,line,content,rest⟩ := getdelim_first piece _ split
  refine ⟨next,text,read,line,content,?_⟩
  unfold Cursor.At
  rw [rest,content]

end Reading
end Semindex.Delimited
