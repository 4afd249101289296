import Semindex.Text
import Mathlib.Data.List.Basic

/-! Bytes as UTF-8. A sequence may be cut at a byte of ASCII without touching a
character, so that it is valid just when both sides are. -/
namespace Semindex

def decodeUtf8 (bytes : List UInt8) : Option Text := bytes.toByteArray.utf8Decode?.map Array.toList

section Text
variable {bytes before after : List UInt8} {text : Text} {b : UInt8}

@[simp] theorem utf8_nil : utf8 [] = [] := rfl

theorem utf8_cons (c : Char) (text : Text) : utf8 (c::text) = String.utf8EncodeChar c ++ utf8 text := rfl

theorem utf8_append (first second : Text) : utf8 (first ++ second) = utf8 first ++ utf8 second := List.flatMap_append

@[simp] theorem decode_utf8 (text : Text) : decodeUtf8 (utf8 text) = some text := by
  have decoded : text.utf8Encode.utf8Decode? = some text.toArray := List.utf8Decode?_utf8Encode
  rw [decodeUtf8]
  change (text.utf8Encode.utf8Decode?).map Array.toList = _
  rw [decoded]
  rfl

theorem utf8_injective {a b : Text} (equal : utf8 a = utf8 b) : a = b := by
  have first := decode_utf8 a
  rw [equal,decode_utf8] at first
  exact (Option.some.inj first).symm

theorem decodeUtf8_iff : decodeUtf8 bytes = some text ↔ utf8 text = bytes := by
  constructor
  · intro decoded
    obtain ⟨chars,found,rfl⟩ := Option.map_eq_some_iff.mp decoded
    have known : bytes.toByteArray.utf8Decode?.isSome := by rw [found]; rfl
    have encoded := @ByteArray.utf8Encode_get_utf8Decode? bytes.toByteArray known
    simp only [found,Option.get_some] at encoded
    exact List.toByteArray_inj.mp encoded
  · intro same
    rw [← same,decode_utf8]

theorem encode_cases (c : Char) : (c.toNat < 0x80 ∧ String.utf8EncodeChar c = [UInt8.ofNat c.toNat]) ∨
    (0x80 ≤ c.toNat ∧ ∀ b ∈ String.utf8EncodeChar c, 0x80 ≤ b.toNat ∧ b.toNat < 0xf8) := by
  have value : c.val.toNat = c.toNat := rfl
  unfold String.utf8EncodeChar
  dsimp only
  rw [value]
  split_ifs with one two three
  · exact .inl ⟨by omega,rfl⟩
  all_goals
    refine .inr ⟨by omega,?_⟩
    intro b member
    simp only [List.mem_cons,List.not_mem_nil,or_false] at member
    rcases member with rfl | rfl | rfl | rfl <;> rw [UInt8.toNat_ofNat'] <;> omega

theorem utf8_small (member : b ∈ utf8 text) : b.toNat < 0xf8 := by
  obtain ⟨c,_,inside⟩ := List.mem_flatMap.mp member
  rcases encode_cases c with ⟨small,single⟩ | ⟨_,high⟩
  · rw [single,List.mem_singleton] at inside
    rw [inside,UInt8.toNat_ofNat']
    omega
  · exact (high b inside).2

theorem utf8_ascii (small : b.toNat < 0x80) : utf8 [Char.ofNat b.toNat] = [b] := by
  have value : (Char.ofNat b.toNat).toNat = b.toNat := by
    have valid : b.toNat.isValidChar := .inl (by omega)
    rw [Char.ofNat,dif_pos valid]
    rfl
  rcases encode_cases (Char.ofNat b.toNat) with ⟨_,single⟩ | ⟨high,_⟩
  · rw [utf8_cons,single,value,UInt8.ofNat_toNat,utf8_nil,List.append_nil]
  · omega

/-- A byte of ASCII is a character of its own. -/
theorem utf8_cut (small : b.toNat < 0x80) (same : utf8 text = before ++ b::after) :
    ∃ first second, text = first ++ Char.ofNat b.toNat::second ∧ utf8 first = before ∧ utf8 second = after := by
  induction text generalizing before with
  | nil => simp at same
  | cons c text ih =>
    -- the cut is behind this character, or it is the character
    have later (rest : List UInt8) (front : before = String.utf8EncodeChar c ++ rest)
        (back : utf8 text = rest ++ b::after) : ∃ first second, c::text = first ++ Char.ofNat b.toNat::second ∧
          utf8 first = before ∧ utf8 second = after := by
      obtain ⟨first,second,split,left,right⟩ := ih back
      exact ⟨c::first,second,by rw [split]; rfl,by rw [utf8_cons,left,front],right⟩
    rw [utf8_cons] at same
    rcases List.append_eq_append_iff.mp same with ⟨rest,front,back⟩ | ⟨rest,front,back⟩
    · exact later rest front back
    · cases rest with
      | nil => exact later [] (by rw [front,List.append_nil,List.append_nil]) back.symm
      | cons x rest =>
        obtain ⟨rfl,rfl⟩ := List.cons.inj back
        rcases encode_cases c with ⟨low,single⟩ | ⟨_,high⟩
        · rw [single] at front
          cases before with
          | nil =>
            obtain ⟨same,none⟩ := List.cons.inj front
            rw [List.nil_eq] at none
            have value : b.toNat = c.toNat := by
              rw [← same,UInt8.toNat_ofNat']
              omega
            refine ⟨[],text,by rw [value,Char.ofNat_toNat]; rfl,rfl,?_⟩
            rw [none]
            rfl
          | cons x before => simp at front
        · have far := high b (front ▸ List.mem_append_right _ List.mem_cons_self)
          omega

/-- Bytes with one of ASCII among them are decoded from both sides. -/
theorem decode_cut (small : b.toNat < 0x80) : decodeUtf8 (before ++ b::after) =
    (decodeUtf8 before).bind (fun first => (decodeUtf8 after).map (fun second =>
      first ++ Char.ofNat b.toNat::second)) := by
  ext text
  rw [Option.bind_eq_some_iff,decodeUtf8_iff]
  constructor
  · intro same
    obtain ⟨first,second,split,left,right⟩ := utf8_cut small same
    refine ⟨first,decodeUtf8_iff.mpr left,?_⟩
    rw [decodeUtf8_iff.mpr right,split]
    rfl
  · intro both
    obtain ⟨first,left,rest⟩ := both
    obtain ⟨second,right,rfl⟩ := Option.map_eq_some_iff.mp rest
    have single := utf8_ascii small
    rw [utf8_append,utf8_cons,decodeUtf8_iff.mp left,decodeUtf8_iff.mp right]
    rw [utf8_cons,utf8_nil,List.append_nil] at single
    rw [single]
    rfl

theorem decode_cons (c : Char) (bytes : List UInt8) :
    decodeUtf8 (String.utf8EncodeChar c ++ bytes) = (decodeUtf8 bytes).map (c :: ·) := by
  have decoded := @ByteArray.utf8Decode?_utf8Encode_singleton_append bytes.toByteArray c
  rw [List.utf8Encode_singleton,← List.toByteArray_append] at decoded
  rw [decodeUtf8,decoded,decodeUtf8,Option.map_map,Option.map_map]
  congr 1
  funext chars
  simp

end Text

section Parts
variable {first second : List UInt8} {a b : Option Text}

/-- These bytes are decoded on their own, whatever follows them. -/
def Apart (bytes : List UInt8) (text : Option Text) : Prop :=
  ∀ after, decodeUtf8 (bytes ++ after) = text.bind (fun front => (decodeUtf8 after).map (front ++ ·))

theorem Apart.decode (apart : Apart first a) : decodeUtf8 first = a := by
  have whole := apart []
  rw [List.append_nil] at whole
  rw [whole]
  cases a with
  | none => rfl
  | some text => simp [show decodeUtf8 [] = some [] from decode_utf8 []]

theorem apart_utf8 (text : Text) : Apart (utf8 text) (some text) := by
  intro after
  induction text with
  | nil => simp
  | cons c text ih =>
    rw [utf8_cons,List.append_assoc,decode_cons,ih]
    simp [Function.comp_def]

theorem Apart.append (left : Apart first a) (right : Apart second b) :
    Apart (first ++ second) (a.bind (fun front => b.map (front ++ ·))) := by
  intro after
  rw [List.append_assoc,left,right]
  cases a <;> cases b <;> simp [Function.comp_def]

end Parts
end Semindex
