import Semindex.Parser.CallEdges
import Mathlib.Data.Finset.Insert
import Mathlib.Data.Finset.Card

/-! The candidates for calls through pointers: which functions a pointer is given, and
which pointers are copied to it. They are counted while a unit is visited; the sets
do not depend on the order of the visits, nor on how often a part is visited. -/
namespace Semindex.Parser.PointsTo

inductive Leaf where
  | reference (d : DeclId)
  | member (d : DeclId)
  | other

/-- An expression, as far as the candidates look into it. -/
inductive Value where
  -- parentheses, casts, `&` and `*`
  | wrapped (value : Value)
  | conditional (whenTrue whenFalse : Value)
  | leaf (isNull : Bool) (leaf : Leaf)

inductive InitList where
  | union (field : Option DeclId) (inits : List Value)
  | record (fields : List DeclId) (inits : List Value)
  | other

/-- A part of the unit that the candidates depend on. An initializer list is the node of its semantic form. -/
inductive Visit where
  | varDecl (d : DeclId) (init : Option Value)
  | assign (lhs rhs : Value)
  | initList (list : Nat)
  | indirectCall (callee : Value)

structure Candidates where
  indirectCallsites : Nat
  identifiedCallsites : Nat
  directCount : Nat
  copyCount : Nat
  rejectedConstraints : Nat
  unsupportedConstraints : Nat
  directConstraints : Finset (Text × Text)
  copyConstraints : Finset (Text × Text)
  pointerIdentities : Finset Text
  functionIdentities : Finset Text
  initLists : Finset Nat

def Candidates.none : Candidates := ⟨0,0,0,0,0,0,∅,∅,∅,∅,∅⟩

inductive Source where
  | function (d : DeclId)
  | pointer (d : DeclId)

/-- What the analysis asks about a unit. -/
structure TranslationUnit where
  ast : Ast
  isFunctionPointer : DeclId → Bool
  initLists : Nat → InitList

section Collect
variable (u : TranslationUnit)

def TranslationUnit.usr (d : DeclId) : Text := (u.ast.decl d).usr

def stripPointsToWrappers : Value → Value
  | .wrapped value => stripPointsToWrappers value
  | value => value

def TranslationUnit.pointerDecl (value : Value) : Option DeclId :=
  match stripPointsToWrappers value with
  | .leaf _ (.reference d) => if u.isFunctionPointer d then some d else none
  | .leaf _ (.member d) => if u.isFunctionPointer d then some d else none
  | _ => none

def TranslationUnit.addDirectConstraint (target : Text) (function : DeclId) (s : Candidates) : Candidates :=
  let s := {s with directCount := s.directCount + 1}
  let functionUsr := u.ast.functionUSR function
  if target = [] ∨ functionUsr = [] then {s with rejectedConstraints := s.rejectedConstraints + 1}
  else { s with
    pointerIdentities := insert target s.pointerIdentities
    functionIdentities := insert functionUsr s.functionIdentities
    directConstraints := insert (target,functionUsr) s.directConstraints }

def TranslationUnit.addCopyConstraint (target : Text) (source : DeclId) (s : Candidates) : Candidates :=
  let s := {s with copyCount := s.copyCount + 1}
  let sourceUsr := u.usr source
  if target = [] ∨ sourceUsr = [] then {s with rejectedConstraints := s.rejectedConstraints + 1}
  else { s with
    pointerIdentities := insert sourceUsr (insert target s.pointerIdentities)
    copyConstraints := insert (target,sourceUsr) s.copyConstraints }

-- whether the value is one that the candidates know, also without a constraint
def TranslationUnit.collectPointsToConstraints (target : Text) : Value → Candidates → Bool × Candidates
  | .wrapped value, s => TranslationUnit.collectPointsToConstraints target value s
  | .conditional whenTrue whenFalse, s =>
    let (left,s) := TranslationUnit.collectPointsToConstraints target whenTrue s
    let (right,s) := TranslationUnit.collectPointsToConstraints target whenFalse s
    (left || right,s)
  | .leaf isNull leaf, s =>
    if isNull then (true,s)
    else
      match leaf with
      | .reference d =>
        if u.ast.isFunction d then (true,u.addDirectConstraint target d s)
        else if u.isFunctionPointer d then (true,u.addCopyConstraint target d s)
        else (false,s)
      | .member d => if u.isFunctionPointer d then (true,u.addCopyConstraint target d s) else (false,s)
      | .other => (false,s)

def TranslationUnit.addPointsToConstraints (target : DeclId) (value : Value) (s : Candidates) : Candidates :=
  let (known,s) := u.collectPointsToConstraints (u.usr target) value s
  if known then s else {s with unsupportedConstraints := s.unsupportedConstraints + 1}

-- the fields that are function pointers, with their initializers
def TranslationUnit.initialized : InitList → List (DeclId × Value)
  | .union (some field) (init::_) => if u.isFunctionPointer field then [(field,init)] else []
  | .union _ _ => []
  | .record fields inits => (fields.zip inits).filter (fun part => u.isFunctionPointer part.1)
  | .other => []

def TranslationUnit.visit (s : Candidates) : Visit → Candidates
  | .varDecl d (some init) => if u.isFunctionPointer d then u.addPointsToConstraints d init s else s
  | .varDecl _ none => s
  | .assign lhs rhs =>
    match u.pointerDecl lhs with
    | some target => u.addPointsToConstraints target rhs s
    | none => s
  | .initList list =>
    if list ∈ s.initLists then s
    else (u.initialized (u.initLists list)).foldl (fun s part => u.addPointsToConstraints part.1 part.2 s)
      {s with initLists := insert list s.initLists}
  | .indirectCall callee =>
    let s := {s with indirectCallsites := s.indirectCallsites + 1}
    match u.pointerDecl callee with
    | none => s
    | some d =>
      if u.usr d = [] then s
      else { s with
        identifiedCallsites := s.identifiedCallsites + 1
        pointerIdentities := insert (u.usr d) s.pointerIdentities }

def TranslationUnit.visits (visits : List Visit) : Candidates := visits.foldl u.visit .none

end Collect
section Explained
variable {u : TranslationUnit} {s : Candidates} {given more : Text → Source → Prop} {called : Text → Prop}

/-- What a value may be: a function, or what another pointer is. -/
inductive Gives (u : TranslationUnit) : Value → Source → Prop where
  | wrapped (value : Value) (source : Source) (inside : Gives u value source) : Gives u (.wrapped value) source
  | whenTrue (whenTrue whenFalse : Value) (source : Source) (taken : Gives u whenTrue source) :
      Gives u (.conditional whenTrue whenFalse) source
  | whenFalse (whenTrue whenFalse : Value) (source : Source) (taken : Gives u whenFalse source) :
      Gives u (.conditional whenTrue whenFalse) source
  | function (d : DeclId) (isFunction : u.ast.isFunction d = true) : Gives u (.leaf false (.reference d)) (.function d)
  | pointer (d : DeclId) (other : u.ast.isFunction d = false) (pointer : u.isFunctionPointer d = true) :
      Gives u (.leaf false (.reference d)) (.pointer d)
  | member (d : DeclId) (pointer : u.isFunctionPointer d = true) : Gives u (.leaf false (.member d)) (.pointer d)

/-- The targets with the names of what they are given, for one kind of source. -/
def Listed (given : Text → Source → Prop) (kind : DeclId → Source) (name : DeclId → Text) (pairs : Finset (Text × Text)) :
    Prop :=
  ∀ target usr, (target,usr) ∈ pairs ↔ target ≠ [] ∧ usr ≠ [] ∧ ∃ d, given target (kind d) ∧ name d = usr

/-- The candidates of the sources that the identities of pointers are given, and of the pointers that are called. -/
structure Explained (u : TranslationUnit) (given : Text → Source → Prop) (called : Text → Prop) (s : Candidates) : Prop where
  direct : Listed given .function u.ast.functionUSR s.directConstraints
  copies : Listed given .pointer u.usr s.copyConstraints
  pointers : ∀ usr, usr ∈ s.pointerIdentities ↔ (∃ function, (usr,function) ∈ s.directConstraints) ∨
    (∃ other, (usr,other) ∈ s.copyConstraints ∨ (other,usr) ∈ s.copyConstraints) ∨ called usr
  functions : ∀ usr, usr ∈ s.functionIdentities ↔ ∃ target, (target,usr) ∈ s.directConstraints
  accounted : s.directConstraints.card + s.copyConstraints.card + s.rejectedConstraints ≤ s.directCount + s.copyCount
  identified : s.identifiedCallsites ≤ s.indirectCallsites

section Listed
variable {kind : DeclId → Source} {name : DeclId → Text} {pairs : Finset (Text × Text)} {target : Text} {source : Source}
  {d : DeclId}

theorem Listed.congr (listed : Listed given kind name pairs) (same : ∀ t x, given t x ↔ more t x) :
    Listed more kind name pairs := by
  intro t usr
  simp only [listed t usr,same]

theorem Listed.other (listed : Listed given kind name pairs) (apart : ∀ e, kind e ≠ source) :
    Listed (fun t x => given t x ∨ t = target ∧ x = source) kind name pairs := by
  intro t usr
  simp only [listed t usr,apart,and_false,or_false]

theorem Listed.skip (listed : Listed given kind name pairs) (single : kind.Injective)
    (unnamed : target = [] ∨ name d = []) :
    Listed (fun t x => given t x ∨ t = target ∧ x = kind d) kind name pairs := by
  intro t usr
  rw [listed]
  constructor
  · rintro ⟨named,known,e,gives,same⟩
    exact ⟨named,known,e,.inl gives,same⟩
  · rintro ⟨named,known,e,gives | ⟨rfl,own⟩,same⟩
    · exact ⟨named,known,e,gives,same⟩
    · rw [single own] at same
      subst same
      exact absurd unnamed (not_or.mpr ⟨named,known⟩)

theorem Listed.insert (listed : Listed given kind name pairs) (single : kind.Injective)
    (named : target ≠ [] ∧ name d ≠ []) :
    Listed (fun t x => given t x ∨ t = target ∧ x = kind d) kind name (insert (target,name d) pairs) := by
  intro t usr
  rw [Finset.mem_insert,listed,Prod.mk.injEq]
  constructor
  · rintro (⟨rfl,rfl⟩ | ⟨filled,known,e,gives,same⟩)
    · exact ⟨named.1,named.2,d,.inr ⟨rfl,rfl⟩,rfl⟩
    · exact ⟨filled,known,e,.inl gives,same⟩
  · rintro ⟨filled,known,e,gives | ⟨rfl,own⟩,same⟩
    · exact .inr ⟨filled,known,e,gives,same⟩
    · rw [single own] at same
      exact .inl ⟨rfl,same.symm⟩

theorem function_single : Function.Injective Source.function := fun _ _ => Source.function.inj

theorem pointer_single : Function.Injective Source.pointer := fun _ _ => Source.pointer.inj

end Listed

theorem Explained.congr {other : Text → Prop} (explained : Explained u given called s)
    (same : ∀ target source, given target source ↔ more target source) (calls : ∀ usr, called usr ↔ other usr) :
    Explained u more other s where
  direct := explained.direct.congr same
  copies := explained.copies.congr same
  pointers := by
    intro usr
    rw [explained.pointers,calls]
  functions := explained.functions
  accounted := explained.accounted
  identified := explained.identified

theorem explained_direct (explained : Explained u given called s) (target : Text) (function : DeclId) :
    Explained u (fun t x => given t x ∨ t = target ∧ x = .function function) called (u.addDirectConstraint target function s) := by
  unfold TranslationUnit.addDirectConstraint
  dsimp only
  split
  · rename_i unnamed
    exact {
      direct := explained.direct.skip function_single unnamed
      copies := explained.copies.other nofun
      pointers := explained.pointers
      functions := explained.functions
      accounted := by
        have before := explained.accounted
        dsimp only
        omega
      identified := explained.identified }
  · rename_i named
    rw [not_or] at named
    exact {
      direct := explained.direct.insert function_single named
      copies := explained.copies.other nofun
      pointers := by
        intro usr
        dsimp only
        rw [Finset.mem_insert,explained.pointers]
        simp only [Finset.mem_insert,Prod.mk.injEq]
        constructor
        · rintro (rfl | ⟨function,inside⟩ | rest)
          · exact .inl ⟨_,.inl ⟨rfl,rfl⟩⟩
          · exact .inl ⟨function,.inr inside⟩
          · exact .inr rest
        · rintro (⟨function,⟨rfl,_⟩ | inside⟩ | rest)
          · exact .inl rfl
          · exact .inr (.inl ⟨function,inside⟩)
          · exact .inr (.inr rest)
      functions := by
        intro usr
        dsimp only
        rw [Finset.mem_insert,explained.functions]
        simp only [Finset.mem_insert,Prod.mk.injEq]
        constructor
        · rintro (rfl | ⟨t,inside⟩)
          · exact ⟨_,.inl ⟨rfl,rfl⟩⟩
          · exact ⟨t,.inr inside⟩
        · rintro ⟨t,⟨_,rfl⟩ | inside⟩
          · exact .inl rfl
          · exact .inr ⟨t,inside⟩
      accounted := by
        have before := explained.accounted
        have larger := Finset.card_insert_le (target,u.ast.functionUSR function) s.directConstraints
        dsimp only
        omega
      identified := explained.identified }

theorem explained_copy (explained : Explained u given called s) (target : Text) (source : DeclId) :
    Explained u (fun t x => given t x ∨ t = target ∧ x = .pointer source) called (u.addCopyConstraint target source s) := by
  unfold TranslationUnit.addCopyConstraint
  dsimp only
  split
  · rename_i unnamed
    exact {
      direct := explained.direct.other nofun
      copies := explained.copies.skip pointer_single unnamed
      pointers := explained.pointers
      functions := explained.functions
      accounted := by
        have before := explained.accounted
        dsimp only
        omega
      identified := explained.identified }
  · rename_i named
    rw [not_or] at named
    exact {
      direct := explained.direct.other nofun
      copies := explained.copies.insert pointer_single named
      pointers := by
        intro usr
        dsimp only
        rw [Finset.mem_insert,Finset.mem_insert,explained.pointers]
        simp only [Finset.mem_insert,Prod.mk.injEq]
        constructor
        · rintro (rfl | rfl | direct | ⟨other,inside⟩ | rest)
          · exact .inr (.inl ⟨target,.inr (.inl ⟨rfl,rfl⟩)⟩)
          · exact .inr (.inl ⟨_,.inl (.inl ⟨rfl,rfl⟩)⟩)
          · exact .inl direct
          · exact .inr (.inl ⟨other,inside.imp .inr .inr⟩)
          · exact .inr (.inr rest)
        · rintro (direct | ⟨other,(⟨rfl,_⟩ | inside) | ⟨_,rfl⟩ | inside⟩ | rest)
          · exact .inr (.inr (.inl direct))
          · exact .inr (.inl rfl)
          · exact .inr (.inr (.inr (.inl ⟨other,.inl inside⟩)))
          · exact .inl rfl
          · exact .inr (.inr (.inr (.inl ⟨other,.inr inside⟩)))
          · exact .inr (.inr (.inr (.inr rest)))
      functions := explained.functions
      accounted := by
        have before := explained.accounted
        have larger := Finset.card_insert_le (target,u.usr source) s.copyConstraints
        dsimp only
        omega
      identified := explained.identified }

theorem Explained.counted (explained : Explained u given called s) (unsupported : Nat) (lists : Finset Nat) :
    Explained u given called {s with unsupportedConstraints := unsupported, initLists := lists} where
  direct := explained.direct
  copies := explained.copies
  pointers := explained.pointers
  functions := explained.functions
  accounted := explained.accounted
  identified := explained.identified

end Explained
section Gives
variable {u : TranslationUnit} {value whenTrue whenFalse : Value} {source : Source} {d : DeclId} {inside : Leaf}

@[simp] theorem gives_wrapped : Gives u (.wrapped value) source ↔ Gives u value source := by
  constructor
  · intro gives
    cases gives
    assumption
  · exact .wrapped value source

@[simp] theorem gives_conditional : Gives u (.conditional whenTrue whenFalse) source ↔
    Gives u whenTrue source ∨ Gives u whenFalse source := by
  constructor
  · intro gives
    cases gives with
    | whenTrue _ _ _ taken => exact .inl taken
    | whenFalse _ _ _ taken => exact .inr taken
  · rintro (taken | taken)
    · exact .whenTrue whenTrue whenFalse source taken
    · exact .whenFalse whenTrue whenFalse source taken

@[simp] theorem gives_null : ¬Gives u (.leaf true inside) source := nofun

@[simp] theorem gives_other : ¬Gives u (.leaf false .other) source := nofun

@[simp] theorem gives_reference : Gives u (.leaf false (.reference d)) source ↔
    u.ast.isFunction d = true ∧ source = .function d ∨
      u.ast.isFunction d = false ∧ u.isFunctionPointer d = true ∧ source = .pointer d := by
  constructor
  · intro gives
    cases gives with
    | function _ isFunction => exact .inl ⟨isFunction,rfl⟩
    | pointer _ other pointer => exact .inr ⟨other,pointer,rfl⟩
  · rintro (⟨isFunction,rfl⟩ | ⟨other,pointer,rfl⟩)
    · exact .function d isFunction
    · exact .pointer d other pointer

@[simp] theorem gives_member : Gives u (.leaf false (.member d)) source ↔
    u.isFunctionPointer d = true ∧ source = .pointer d := by
  constructor
  · intro gives
    cases gives with
    | member _ pointer => exact ⟨pointer,rfl⟩
  · rintro ⟨pointer,rfl⟩
    exact .member d pointer

end Gives
section Constraints
variable {u : TranslationUnit} {s : Candidates} {given : Text → Source → Prop} {called : Text → Prop}

theorem explained_collect (explained : Explained u given called s) (target : Text) (value : Value) :
    Explained u (fun t x => given t x ∨ t = target ∧ Gives u value x) called
      (u.collectPointsToConstraints target value s).2 := by
  induction value generalizing s given with
  | wrapped value ih => exact (ih explained).congr (by simp) (by simp)
  | conditional whenTrue whenFalse ihTrue ihFalse =>
    refine (ihFalse (ihTrue explained)).congr ?_ (by simp)
    intro t x
    rw [gives_conditional,and_or_left,or_assoc]
  | leaf isNull inside =>
    cases isNull with
    | true => exact explained.congr (by simp) (by simp)
    | false =>
      cases inside with
      | other => exact explained.congr (by simp) (by simp)
      | member d =>
        simp only [TranslationUnit.collectPointsToConstraints,Bool.false_eq_true,if_false]
        split
        · rename_i pointer
          exact (explained_copy explained target d).congr (by simp [pointer]) (by simp)
        · rename_i other
          exact explained.congr (by simp [other]) (by simp)
      | reference d =>
        simp only [TranslationUnit.collectPointsToConstraints,Bool.false_eq_true,if_false]
        split
        · rename_i isFunction
          exact (explained_direct explained target d).congr (by simp [isFunction]) (by simp)
        · rename_i notFunction
          split
          · rename_i pointer
            exact (explained_copy explained target d).congr (by simp [notFunction,pointer]) (by simp)
          · rename_i other
            exact explained.congr (by simp [notFunction,other]) (by simp)

theorem explained_add (explained : Explained u given called s) (target : DeclId) (value : Value) :
    Explained u (fun t x => given t x ∨ t = u.usr target ∧ Gives u value x) called
      (u.addPointsToConstraints target value s) := by
  have collected := explained_collect explained (u.usr target) value
  unfold TranslationUnit.addPointsToConstraints
  dsimp only
  split
  · exact collected
  · exact collected.counted _ _

theorem explained_parts (explained : Explained u given called s) (parts : List (DeclId × Value)) :
    Explained u (fun t x => given t x ∨ ∃ part ∈ parts, t = u.usr part.1 ∧ Gives u part.2 x) called
      (parts.foldl (fun s part => u.addPointsToConstraints part.1 part.2 s) s) := by
  induction parts generalizing s given with
  | nil => exact explained.congr (by simp) (by simp)
  | cons part parts ih =>
    refine (ih (explained_add explained part.1 part.2)).congr ?_ (by simp)
    intro t x
    rw [List.exists_mem_cons_iff,or_assoc]

theorem explained_call (explained : Explained u given called s) (callee : Value) :
    Explained u given (fun usr => called usr ∨ usr ≠ [] ∧ ∃ d, u.pointerDecl callee = some d ∧ usr = u.usr d)
      (u.visit s (.indirectCall callee)) := by
  have counted : Explained u given called {s with indirectCallsites := s.indirectCallsites + 1} :=
    ⟨explained.direct,explained.copies,explained.pointers,explained.functions,explained.accounted,
      explained.identified.trans (Nat.le_succ _)⟩
  simp only [TranslationUnit.visit]
  split
  · rename_i unknown
    exact counted.congr (by simp) (by simp [unknown])
  · rename_i d pointer
    split
    · rename_i unnamed
      exact counted.congr (by simp) (by simp [pointer,unnamed])
    · rename_i named
      exact {
        direct := explained.direct
        copies := explained.copies
        pointers := by
          intro usr
          dsimp only
          rw [Finset.mem_insert,explained.pointers,pointer]
          constructor
          · rintro (rfl | direct | copied | before)
            · exact .inr (.inr (.inr ⟨named,d,rfl,rfl⟩))
            · exact .inl direct
            · exact .inr (.inl copied)
            · exact .inr (.inr (.inl before))
          · rintro (direct | copied | before | ⟨_,_,same,rfl⟩)
            · exact .inr (.inl direct)
            · exact .inr (.inr (.inl copied))
            · exact .inr (.inr (.inr before))
            · cases same
              exact .inl rfl
        functions := explained.functions
        accounted := explained.accounted
        identified := Nat.succ_le_succ explained.identified }

theorem initLists_collect (target : Text) (value : Value) (s : Candidates) :
    (u.collectPointsToConstraints target value s).2.initLists = s.initLists := by
  induction value generalizing s with
  | wrapped value ih => exact ih s
  | conditional whenTrue whenFalse ihTrue ihFalse => exact (ihFalse _).trans (ihTrue s)
  | leaf isNull inside =>
    have direct : ∀ d, (u.addDirectConstraint target d s).initLists = s.initLists := by
      intro d
      unfold TranslationUnit.addDirectConstraint
      dsimp only
      split <;> rfl
    have copied : ∀ d, (u.addCopyConstraint target d s).initLists = s.initLists := by
      intro d
      unfold TranslationUnit.addCopyConstraint
      dsimp only
      split <;> rfl
    cases isNull with
    | true => rfl
    | false =>
      cases inside with
      | other => rfl
      | member d =>
        simp only [TranslationUnit.collectPointsToConstraints,Bool.false_eq_true,if_false]
        split
        · exact copied d
        · rfl
      | reference d =>
        simp only [TranslationUnit.collectPointsToConstraints,Bool.false_eq_true,if_false]
        split
        · exact direct d
        · split
          · exact copied d
          · rfl

@[simp] theorem initLists_add (target : DeclId) (value : Value) (s : Candidates) :
    (u.addPointsToConstraints target value s).initLists = s.initLists := by
  have same := initLists_collect (u := u) (u.usr target) value s
  unfold TranslationUnit.addPointsToConstraints
  dsimp only
  split
  · exact same
  · exact same

@[simp] theorem initLists_parts (parts : List (DeclId × Value)) (s : Candidates) :
    (parts.foldl (fun s part => u.addPointsToConstraints part.1 part.2 s) s).initLists = s.initLists := by
  induction parts generalizing s with
  | nil => rfl
  | cons part parts ih => rw [List.foldl_cons,ih,initLists_add]

end Constraints
section Visits
variable (u : TranslationUnit)

-- the pointers that a part gives a value
def TranslationUnit.assigned : Visit → List (DeclId × Value)
  | .varDecl d (some init) => if u.isFunctionPointer d then [(d,init)] else []
  | .varDecl _ none => []
  | .assign lhs rhs => (u.pointerDecl lhs).toList.map (fun target => (target,rhs))
  | .initList list => u.initialized (u.initLists list)
  | .indirectCall _ => []

def Given (visits : List Visit) (target : Text) (source : Source) : Prop :=
  ∃ visit ∈ visits, ∃ part ∈ u.assigned visit, target = u.usr part.1 ∧ Gives u part.2 source

def Called (visits : List Visit) (usr : Text) : Prop :=
  usr ≠ [] ∧ ∃ callee, .indirectCall callee ∈ visits ∧ ∃ d, u.pointerDecl callee = some d ∧ usr = u.usr d

variable {u} {s : Candidates} {visits others : List Visit}

theorem given_append (visit : Visit) (target : Text) (source : Source) : Given u (visits ++ [visit]) target source ↔
    Given u visits target source ∨ ∃ part ∈ u.assigned visit, target = u.usr part.1 ∧ Gives u part.2 source := by
  unfold Given
  constructor
  · rintro ⟨found,inside,rest⟩
    rcases List.mem_append.mp inside with before | last
    · exact .inl ⟨found,before,rest⟩
    · rw [List.mem_singleton.mp last] at rest
      exact .inr rest
  · rintro (⟨found,inside,rest⟩ | rest)
    · exact ⟨found,List.mem_append_left _ inside,rest⟩
    · exact ⟨visit,List.mem_append_right _ (List.mem_singleton_self visit),rest⟩

theorem called_append {visit : Visit} (quiet : ∀ callee, visit ≠ .indirectCall callee) (usr : Text) :
    Called u (visits ++ [visit]) usr ↔ Called u visits usr := by
  have same : ∀ callee, Visit.indirectCall callee ∈ visits ++ [visit] ↔ .indirectCall callee ∈ visits := by
    intro callee
    rw [List.mem_append,List.mem_singleton,or_iff_left (quiet callee).symm]
  simp only [Called,same]

/-- What the candidates are after the visits. -/
structure Visited (u : TranslationUnit) (visits : List Visit) (s : Candidates) : Prop where
  explained : Explained u (Given u visits) (Called u visits) s
  lists : ∀ list, list ∈ s.initLists ↔ .initList list ∈ visits

theorem visited_none : Visited u [] .none where
  explained := {
    direct := by
      intro target usr
      simp [Candidates.none,Given]
    copies := by
      intro target usr
      simp [Candidates.none,Given]
    pointers := by simp [Candidates.none,Called]
    functions := by simp [Candidates.none]
    accounted := le_refl _
    identified := le_refl _ }
  lists := by simp [Candidates.none]

theorem Visited.silent {visit : Visit} (visited : Visited u visits s) (nothing : u.assigned visit = [])
    (quiet : ∀ callee, visit ≠ .indirectCall callee) (plain : ∀ list, visit ≠ .initList list) :
    Visited u (visits ++ [visit]) s where
  explained := visited.explained.congr (fun t x => by simp [given_append,nothing])
    (fun usr => (called_append quiet usr).symm)
  lists := by
    intro list
    rw [visited.lists,List.mem_append,List.mem_singleton,or_iff_left (plain list).symm]

theorem Visited.part {visit : Visit} {target : DeclId} {value : Value} (visited : Visited u visits s)
    (assigned : u.assigned visit = [(target,value)]) (quiet : ∀ callee, visit ≠ .indirectCall callee)
    (plain : ∀ list, visit ≠ .initList list) :
    Visited u (visits ++ [visit]) (u.addPointsToConstraints target value s) where
  explained := (explained_add visited.explained target value).congr (fun t x => by simp [given_append,assigned])
    (fun usr => (called_append quiet usr).symm)
  lists := by
    intro list
    rw [initLists_add,visited.lists,List.mem_append,List.mem_singleton,or_iff_left (plain list).symm]

theorem Visited.list (visited : Visited u visits s) (list : Nat) :
    Visited u (visits ++ [.initList list]) (u.visit s (.initList list)) := by
  simp only [TranslationUnit.visit]
  split
  · rename_i again
    have before := (visited.lists list).mp again
    exact {
      explained := by
        refine visited.explained.congr ?_ (fun usr => (called_append (by simp) usr).symm)
        intro t x
        rw [given_append]
        exact ⟨.inl,fun known => known.elim id (fun rest => ⟨_,before,rest⟩)⟩
      lists := by
        intro other
        rw [visited.lists,List.mem_append,List.mem_singleton]
        constructor
        · exact .inl
        · rintro (known | same)
          · exact known
          · cases same
            exact before }
  · exact {
      explained := (explained_parts (visited.explained.counted _ _) _).congr
        (fun t x => by rw [given_append]; rfl) (fun usr => (called_append (by simp) usr).symm)
      lists := by
        intro other
        rw [initLists_parts,Finset.mem_insert,visited.lists,List.mem_append,List.mem_singleton,Visit.initList.injEq]
        exact or_comm }

theorem Visited.call (visited : Visited u visits s) (callee : Value) :
    Visited u (visits ++ [.indirectCall callee]) (u.visit s (.indirectCall callee)) where
  explained := by
    refine (explained_call visited.explained callee).congr (fun t x => by simp [given_append,TranslationUnit.assigned]) ?_
    intro usr
    constructor
    · rintro (⟨named,other,inside,pointer⟩ | ⟨named,pointer⟩)
      · exact ⟨named,other,List.mem_append_left _ inside,pointer⟩
      · exact ⟨named,callee,List.mem_append_right _ (List.mem_singleton_self _),pointer⟩
    · rintro ⟨named,other,inside,pointer⟩
      rcases List.mem_append.mp inside with before | last
      · exact .inl ⟨named,other,before,pointer⟩
      · cases List.mem_singleton.mp last
        exact .inr ⟨named,pointer⟩
  lists := by
    intro list
    have same : (u.visit s (.indirectCall callee)).initLists = s.initLists := by
      simp only [TranslationUnit.visit]
      split
      · rfl
      · split <;> rfl
    rw [same,visited.lists,List.mem_append,List.mem_singleton,or_iff_left (by simp)]

theorem visited_visit (visited : Visited u visits s) (visit : Visit) :
    Visited u (visits ++ [visit]) (u.visit s visit) := by
  cases visit with
  | varDecl d init =>
    cases init with
    | none => exact visited.silent rfl (by simp) (by simp)
    | some init =>
      simp only [TranslationUnit.visit]
      split
      · rename_i pointer
        exact visited.part (by simp [TranslationUnit.assigned,pointer]) (by simp) (by simp)
      · rename_i other
        exact visited.silent (by simp [TranslationUnit.assigned,other]) (by simp) (by simp)
  | assign lhs rhs =>
    simp only [TranslationUnit.visit]
    split
    · rename_i target pointer
      exact visited.part (by simp [TranslationUnit.assigned,pointer]) (by simp) (by simp)
    · rename_i unknown
      exact visited.silent (by simp [TranslationUnit.assigned,unknown]) (by simp) (by simp)
  | initList list => exact visited.list list
  | indirectCall callee => exact visited.call callee

theorem visited (u : TranslationUnit) (visits : List Visit) : Visited u visits (u.visits visits) := by
  induction visits using List.reverseRecOn with
  | nil => exact visited_none
  | append_singleton visits visit ih =>
    unfold TranslationUnit.visits
    rw [List.foldl_append]
    exact visited_visit ih visit

theorem Explained.same {given : Text → Source → Prop} {called : Text → Prop} {again : Candidates}
    (explained : Explained u given called s) (other : Explained u given called again) :
    s.directConstraints = again.directConstraints ∧ s.copyConstraints = again.copyConstraints ∧
      s.pointerIdentities = again.pointerIdentities ∧ s.functionIdentities = again.functionIdentities := by
  have direct : s.directConstraints = again.directConstraints := by
    ext ⟨target,usr⟩
    rw [explained.direct target usr,other.direct target usr]
  have copies : s.copyConstraints = again.copyConstraints := by
    ext ⟨target,usr⟩
    rw [explained.copies target usr,other.copies target usr]
  refine ⟨direct,copies,?_,?_⟩
  · ext usr
    rw [explained.pointers,other.pointers,direct,copies]
  · ext usr
    rw [explained.functions,other.functions,direct]

end Visits
section Sample

end Sample
end Semindex.Parser.PointsTo
