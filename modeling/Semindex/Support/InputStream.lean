import Semindex.Support.Delimited
import Mathlib.Data.List.TakeWhile

/-! Input streams of bytes. At the end of its bytes a stream turns `eof`, and an
extraction that finds nothing turns it to `failed`; neither is taken back. -/
namespace Semindex.Support
open Semindex.Delimited

abbrev Byte := UInt8

abbrev nul : Byte := 0
def newline : Byte := 10
def carriageReturn : Byte := 13
def slash : Byte := 47

-- `if (!line.empty() && line.back() == '\r') line.pop_back()`
def withoutReturn (line : List Byte) : List Byte :=
  if line.getLast? = some carriageReturn then line.dropLast else line

structure InputStream where
  rest : List Byte
  eof : Bool := false
  failed : Bool := false
  deriving DecidableEq

namespace InputStream

def good (input : InputStream) : Bool := !input.eof && !input.failed

/-- `std::getline`: the stream behind the line and the line without its newline. Where the stream is not good the
text stays as it was. -/
def getline (input : InputStream) (line : List Byte) : InputStream × List Byte :=
  if !input.good then ({input with failed := true},line)
  else
    let text := input.rest.takeWhile (· ≠ newline)
    match input.rest.dropWhile (· ≠ newline) with
    | _::after => ({input with rest := after},text)
    | [] => ({rest := [], eof := true, failed := text = []},text)

/-- `std::istream::read` of so many bytes. -/
def read (input : InputStream) (count : Nat) : InputStream × List Byte :=
  if !input.good then ({input with failed := true},[])
  else if count ≤ input.rest.length then ({input with rest := input.rest.drop count},input.rest.take count)
  else ({rest := [], eof := true, failed := true},input.rest)

end InputStream

section Lines
variable {line text after bytes : List Byte} {input : InputStream}

theorem getline_cut (fresh : newline ∉ text) :
    (InputStream.mk (text ++ newline::after) false false).getline line = (⟨after,false,false⟩,text) := by
  obtain ⟨front,back⟩ := takeWhile_cut fresh after
  rw [InputStream.getline,if_neg (by simp [InputStream.good])]
  dsimp only
  rw [front,back]

theorem getline_last (fresh : newline ∉ text) :
    (InputStream.mk text false false).getline line = (⟨[],true,text = []⟩,text) := by
  obtain ⟨front,back⟩ := takeWhile_whole fresh
  rw [InputStream.getline,if_neg (by simp [InputStream.good])]
  dsimp only
  rw [front,back]

theorem getline_bad (bad : input.good = false) : input.getline line = ({input with failed := true},line) := by
  simp [InputStream.getline,bad]

-- the bytes that a stream can still give
def InputStream.left (input : InputStream) : List Byte := if input.good then input.rest else []

/-- A line is the next piece of what is left, and there is none where nothing is left. -/
theorem getline_pieces (input : InputStream) (line : List Byte) :
    (pieces newline input.left = [] ∧ (input.getline line).1.failed = true) ∨
      ∃ first others, pieces newline input.left = first::others ∧ (input.getline line).2 = first ∧
        (input.getline line).1.failed = false ∧ pieces newline (input.getline line).1.left = others := by
  cases good : input.good with
  | false =>
    refine .inl ⟨by simp [InputStream.left,good,pieces],?_⟩
    rw [getline_bad good]
  | true =>
    obtain ⟨rest,eof,failed⟩ := input
    obtain ⟨rfl,rfl⟩ : eof = false ∧ failed = false := by simpa [InputStream.good] using good
    have left : (InputStream.mk rest false false).left = rest := rfl
    rw [left]
    rcases @first_cut _ _ newline rest with whole | ⟨text,after,rfl,fresh⟩
    · rw [getline_last whole]
      by_cases empty : rest = []
      · exact .inl ⟨by rw [empty]; rfl,by simp [empty]⟩
      · exact .inr ⟨rest,[],pieces_last whole empty,rfl,by simpa using empty,rfl⟩
    · rw [getline_cut fresh,pieces_cut fresh]
      exact .inr ⟨text,_,rfl,rfl,rfl,rfl⟩

end Lines
end Semindex.Support
