import Semindex.Lsp.Overlay

/-! The names of `output_dissect`, and where they are those of the writer and of
the overlay. Each of the three builds the name of a member by itself. -/
namespace Semindex.Cmdline
open Semindex.IndexDb

-- `snprintf` into a buffer of `len` bytes, for an owner
def symbolNameForDissect (owner name : Text) (len : Nat) : List UInt8 :=
  if owner ≠ [] then (utf8 (owner ++ ".".toList ++ name)).take (len-1) else utf8 name

/-- The name that `print_dissect_symbol` and `print_dissect_use` print. -/
def dissectName (owner name : Text) : List UInt8 := symbolNameForDissect owner name 256

/-- The form of the documentation: the separator of a member is the dot, also behind a namespace. -/
def documentedName (owner name : Text) : Text := if owner = [] then name else owner ++ ".".toList ++ name

/-- The three names of a member are the documented one. -/
structure NamesAgree (owner name : Text) : Prop where
  writer : qualifiedName owner name = documentedName owner name
  overlay : Lsp.qualifiedName owner name = documentedName owner name
  dissect : dissectName owner name = utf8 (documentedName owner name)

section Names
variable {owner name : Text}

/-- The overlay names a member as the writer does. -/
theorem writer_name_iff (owned : owner ≠ []) :
    qualifiedName owner name = documentedName owner name ↔ ¬ "::".toList <:+: owner := by
  unfold qualifiedName documentedName
  rw [if_neg owned,if_neg owned]
  split
  · rename_i namespaced
    refine iff_of_false ?_ (not_not.mpr namespaced)
    intro same
    rw [List.append_assoc,List.append_assoc] at same
    exact absurd (List.cons.inj (List.append_cancel_left same)).1 (by decide)
  · rename_i plain
    exact iff_of_true rfl plain

theorem dissect_name_iff (owned : owner ≠ []) : dissectName owner name = utf8 (documentedName owner name) ↔
    byteLength owner + 1 + byteLength name ≤ 255 := by
  have size : (utf8 (owner ++ ".".toList ++ name)).length = byteLength owner + 1 + byteLength name := by
    simp only [utf8,List.flatMap_append,List.length_append]
    rfl
  unfold dissectName symbolNameForDissect documentedName
  rw [if_pos owned,if_neg owned,List.take_eq_self_iff,size]

/-- A member's names agree exactly where it has no owner, or one without a namespace and a short name. -/
theorem names_agree_iff (owner name : Text) : NamesAgree owner name ↔
    owner = [] ∨ (¬ "::".toList <:+: owner ∧ byteLength owner + 1 + byteLength name ≤ 255) := by
  by_cases owned : owner = []
  · subst owned
    exact iff_of_true ⟨rfl,rfl,rfl⟩ (.inl rfl)
  · constructor
    · intro agree
      exact .inr ⟨(writer_name_iff owned).mp agree.writer,(dissect_name_iff owned).mp agree.dissect⟩
    · intro short
      obtain ⟨plain,fits⟩ := short.resolve_left owned
      have written : qualifiedName owner name = documentedName owner name := (writer_name_iff owned).mpr plain
      exact ⟨written,(Lsp.qualifiedName_stored owner name).trans written,(dissect_name_iff owned).mpr fits⟩

/-- The writer names a member of a class in a namespace with another separator than the documentation. -/
theorem namespaced_name_differs : ¬ NamesAgree "alpha::Point".toList "process".toList := by
  intro agree
  exact absurd agree.writer (by decide)

end Names
end Semindex.Cmdline
