import Semindex.Mcp.Cursors

/-! The pages of direct calls as the JSON library prints their cursors. -/
namespace Semindex.Mcp
open Semindex.Relational Semindex.IndexDb Semindex.Database Semindex.Mcp.Cursors

section Paging
variable {serialize : Cursor → List UInt8} {db : Db} {direction : CallDirection} {arguments : CallArguments}
  {configured : Text} {identity : Identity}

-- only that the printed keys tell the records apart, and that none of them is empty
theorem pagesExact_iff (direct : Direct arguments configured identity)
    (printed : ∀ a ∈ allCalls db direction identity, ∀ b ∈ allCalls db direction identity,
      serialize (cursorOf a) = serialize (cursorOf b) → cursorOf a = cursorOf b)
    (filled : ∀ cursor, serialize cursor ≠ []) (cursor : CursorArgument) :
    PagesExact serialize db direction arguments configured identity cursor ↔ cursor ≠ .text [] := by
  have distinct := allCalls_distinct direct.named.2.1 printed
  have named (record : DbRecord) : recordCursor serialize record ≠ [] := fun empty => filled _ (encodeHex_nil.mp empty)
  cases cursor with
  | missing =>
    refine iff_of_true (fun limits limited => ?_) (by simp)
    exact follow_all distinct (fun n => (limited n).1) (fun cursor n known => nextPage_eq direct (limited n) named known)
  | other =>
    refine iff_of_true (fun limit limited => ?_) (by simp)
    rw [ask_eq direct limited]
    exact ⟨_,rfl⟩
  | text value =>
    constructor
    · intro exact same
      cases same
      have limited : 1 ≤ 1 ∧ 1 ≤ MAX_LIMIT := by decide
      have unknown : [] ∉ (allCalls db direction identity).map (recordCursor serialize) := by
        intro member
        obtain ⟨record,_,empty⟩ := List.mem_map.mp member
        exact named record empty
      obtain ⟨message,error⟩ := (exact 1 limited).2 unknown
      rw [ask_eq direct limited] at error
      dsimp only at error
      rw [directRecords_eq direct.named.2.1,if_pos rfl] at error
      cases error
    · intro present limit limited
      have filled : value ≠ [] := fun empty => present (congrArg CursorArgument.text empty)
      constructor
      · intro front record back whole same
        have found : value ∈ (allCalls db direction identity).map (recordCursor serialize) := by
          rw [whole,← same]
          simp
        have page := @nextPage_eq serialize db direction arguments configured identity limit direct limited named
          (some value) (fun c equal => Option.some.inj equal ▸ found)
        have rest : behind (recordCursor serialize) value (allCalls db direction identity) = back := by
          rw [← same,whole]
          exact behind_append (whole ▸ distinct)
        rw [remaining,rest] at page
        exact page
      · intro unknown
        rw [ask_eq direct limited]
        dsimp only
        rw [directRecords_eq direct.named.2.1,if_neg filled,if_neg unknown]
        exact ⟨_,rfl⟩

/-- The pages of direct calls are exact, but for the empty cursor: it is taken for none. -/
theorem direct_pages_iff (lib : JsonLibrary) (empty : lib.parse [] = none) (direct : Direct arguments configured identity)
    (cursor : CursorArgument) :
    PagesExact (serializeCursor lib) db direction arguments configured identity cursor ↔ cursor ≠ .text [] :=
  pagesExact_iff direct (fun _ _ _ _ => serializeCursor_injective) (serializeCursor_filled empty) cursor

end Paging

section Sample

-- two calls of main in f
def twoCalls : List Note := [callNote "f" "main" 1,callNote "f" "main" 2]

def mainArguments : CallArguments where
  symbol := some "main".toList
  usrId := some "4".toList
  variant := none
  limit := .missing
  depth := .missing
  nodeLimit := .missing
  cursor := false

theorem mainArguments_direct : Direct mainArguments "v".toList mainRequest.root where
  symbol := rfl
  usrId := by decide
  variant := by decide
  kind := rfl
  named := by decide
  bounds := ⟨50,by decide⟩

theorem twoCalls_stored : ∃ db, storeAll foldHash (twoCalls.map Note.job) = some db ∧
    (allCalls db .callers mainRequest.root).length = 2 := by
  have run : (storeAll foldHash (twoCalls.map Note.job)).map (fun db => (allCalls db .callers mainRequest.root).length) = some 2 := by
    decide +kernel
  exact Option.map_eq_some_iff.mp run

/-- Two calls, in pages of any sizes. -/
theorem direct_pages_two : ∃ db, storeAll foldHash (twoCalls.map Note.job) = some db ∧
    (allCalls db .callers mainRequest.root).length = 2 ∧
    PagesExact (serializeCursor plainLibrary) db .callers mainArguments "v".toList mainRequest.root .missing := by
  obtain ⟨db,stored,length⟩ := twoCalls_stored
  exact ⟨db,stored,length,(direct_pages_iff plainLibrary (by decide) mainArguments_direct .missing).mpr (by decide)⟩

/-- The empty cursor is the key of no record, and is answered with the first page. -/
theorem empty_cursor_accepted : ∃ db, storeAll foldHash (twoCalls.map Note.job) = some db ∧
    ¬ PagesExact (serializeCursor plainLibrary) db .callers mainArguments "v".toList mainRequest.root (.text []) := by
  obtain ⟨db,stored,length⟩ := twoCalls_stored
  refine ⟨db,stored,?_⟩
  intro exact
  have limited : 1 ≤ 2 ∧ 2 ≤ MAX_LIMIT := by decide
  have unknown : [] ∉ (allCalls db .callers mainRequest.root).map (Mcp.recordCursor (serializeCursor plainLibrary)) := by
    intro member
    obtain ⟨record,_,empty⟩ := List.mem_map.mp member
    exact serializeCursor_filled (by decide) _ (encodeHex_nil.mp empty)
  obtain ⟨message,error⟩ := (exact 2 limited).2 unknown
  rw [ask_eq mainArguments_direct limited] at error
  dsimp only at error
  rw [directRecords_eq mainArguments_direct.named.2.1,if_pos rfl] at error
  cases error

end Sample
end Semindex.Mcp
