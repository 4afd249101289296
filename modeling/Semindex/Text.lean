import Mathlib.Data.List.Lex
import Mathlib.Data.Char

/-! Text columns and C strings. SQLite requires TEXT to be UTF-8, so a string is
its sequence of code points; `byteLength` is what `strlen` counts. The order of
the list is the BINARY collation, since UTF-8 preserves the order of code points. -/
namespace Semindex

abbrev Text := List Char

def utf8 (t : Text) : List UInt8 := t.flatMap String.utf8EncodeChar

-- a character for each byte, by its number
def latin (bytes : List UInt8) : Text := bytes.map (fun b => Char.ofNat b.toNat)

def byteLength (t : Text) : Nat := (utf8 t).length

end Semindex
