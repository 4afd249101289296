import Semindex.Support.Decimal
import Semindex.Support.InputStream
import Mathlib.Data.Nat.Digits.Lemmas

/-! The framing of the language server. A header block is read line by line, and the
body by the length that the block gives. -/
namespace Semindex.Lsp
open Semindex.Support Semindex.Delimited

inductive ReadResult where
  | message (payload : List Byte)
  | endOfFile
  | error (report : String)
  deriving DecidableEq

def maxMessageSize : Nat := 64 * 1024 * 1024

section Headers

def lengthPrefix : List Byte := utf8 "Content-Length:".toList

def isDigit (b : Byte) : Bool := 48 ≤ b && b ≤ 57

def decimalValue (digits : List Byte) : Nat := Nat.ofDigits 10 (digits.reverse.map (fun b => b.toNat - 48))

/-- `std::from_chars` for a `size_t`: the value and what is behind its digits. -/
def fromChars (text : List Byte) : Option (Nat × List Byte) :=
  let digits := text.takeWhile isDigit
  if digits = [] ∨ 2^64 ≤ decimalValue digits then none else some (decimalValue digits,text.dropWhile isDigit)

def contentLength (text : List Byte) : Option Nat :=
  match fromChars (text.dropWhile (fun b => b = 32 || b = 9)) with
  | some (length,[]) => if length = 0 ∨ maxMessageSize < length then none else some length
  | _ => none

-- a line of the header block, with the length the lines before it gave
def headerLine (length : Option Nat) (line : List Byte) : Except String (Option Nat) :=
  if !lengthPrefix.isPrefixOf line then .ok length
  else if length.isSome then .error "duplicate Content-Length header"
  else match contentLength (line.drop lengthPrefix.length) with
    | none => .error "invalid Content-Length header"
    | some length => .ok (some length)

theorem getline_shorter {input : InputStream} {line : List Byte} (found : (input.getline line).1.failed = false) :
    (if (input.getline line).1.good then (input.getline line).1.rest.length + 1 else 0) <
      if input.good then input.rest.length + 1 else 0 := by
  cases good : input.good with
  | false =>
    rw [getline_bad good] at found
    cases found
  | true =>
    obtain ⟨rest,eof,failed⟩ := input
    obtain ⟨rfl,rfl⟩ : eof = false ∧ failed = false := by simpa [InputStream.good] using good
    rcases @first_cut _ _ newline rest with whole | ⟨text,after,rfl,fresh⟩
    · rw [getline_last whole]
      simp [InputStream.good]
    · rw [getline_cut fresh]
      simp [InputStream.good]

/-- The loop over the header block: where it ends, the last line and the length. -/
def readHeaders (input : InputStream) (line : List Byte) (length : Option Nat) :
    Except String (InputStream × List Byte × Option Nat) :=
  if _found : (input.getline line).1.failed = false then
    let stripped := withoutReturn (input.getline line).2
    if stripped = [] then .ok ((input.getline line).1,stripped,length)
    else match headerLine length stripped with
      | .error report => .error report
      | .ok length => readHeaders (input.getline line).1 stripped length
  else .ok ((input.getline line).1,(input.getline line).2,length)
termination_by if input.good then input.rest.length + 1 else 0
decreasing_by exact getline_shorter _found

-- what follows the loop
def readPayload (input : InputStream) (line : List Byte) (length : Option Nat) : ReadResult × InputStream :=
  if input.failed && line = [] && length = none then (if input.eof then .endOfFile else .error "",input)
  else match length with
    | none => (.error "missing Content-Length header",input)
    | some length =>
      let (input,payload) := input.read length
      (if payload.length ≠ length then .error "truncated message body" else .message payload,input)

/-- One call of `read`, with the stream behind it. -/
def read (input : InputStream) : ReadResult × InputStream :=
  match readHeaders input [] none with
  | .error report => (.error report,input)
  | .ok (input,line,length) => readPayload input line length

-- what `read` gives when it is called again and again, up to the first answer that is no message
inductive Reads : InputStream → List (List Byte) → ReadResult → Prop
  | stop {input : InputStream} {result : ReadResult} (answer : (read input).1 = result)
      (last : ∀ payload, result ≠ .message payload) : Reads input [] result
  | next {input after : InputStream} {payload : List Byte} {payloads : List (List Byte)} {result : ReadResult}
      (answer : read input = (.message payload,after)) (others : Reads after payloads result) :
      Reads input (payload::payloads) result

end Headers

section Block
variable {raw after rest line : List Byte} {length : Option Nat} {headers : List (List Byte)} {n : Nat}

end Block

section Read
variable {bytes front payload after rest : List Byte} {headers : List (List Byte)} {n : Nat}

theorem Reads.unique {input : InputStream} {payloads others : List (List Byte)} {result last : ReadResult}
    (first : Reads input payloads result) (second : Reads input others last) : payloads = others ∧ result = last := by
  induction first generalizing others last with
  | stop answer ended =>
    cases second with
    | stop answer' ended' => exact ⟨rfl,answer.symm.trans answer'⟩
    | next answer' behind =>
      rw [answer'] at answer
      exact (ended _ answer.symm).elim
  | next answer behind ih =>
    cases second with
    | stop answer' ended' =>
      rw [answer] at answer'
      exact (ended' _ answer'.symm).elim
    | next answer' behind' =>
      obtain ⟨payload,rfl⟩ := Prod.mk.inj (answer.symm.trans answer')
      obtain ⟨rfl,rfl⟩ := ih behind'
      exact ⟨by rw [ReadResult.message.inj payload],rfl⟩

end Read

section Write
variable {payload : List Byte} {n : Nat}

end Write
end Semindex.Lsp
