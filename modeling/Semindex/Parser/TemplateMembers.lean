import Semindex.Parser.CallEdges
import Semindex.Parser.DeclIdentity

/-! The members of the implicit instantiations of a class template, and what their
calls are stored under. `primaryValueDecl` looks a member up in the template by its
name and the number of its parameters. -/
namespace Semindex.Parser
open Semindex.Graph Semindex.IndexDb Semindex.Database

section Members
variable (ast : Ast)

/-- A method or a field of the record that the frontend instantiated from this one. -/
structure Ast.From (record d p : DeclId) : Prop where
  member : ast.declContext d = some record
  kind : ast.isMethod d = true ∨ ast.isField d = true
  pattern : (ast.decl d).instantiatedFrom = some p

/-- An implicit instantiation of a class template. What is instantiated keeps its kind and its name; the number
of its parameters may be another one, as a pack becomes several. -/
structure Ast.Instantiates (record template : DeclId) : Prop where
  specialization : ast.isSpecialization (some record) = true
  primary : ast.primaryRecord record = template
  apart : template ≠ record
  plain : ast.isLambdaClosure record = false
  listed : ∀ {d p}, ast.From record d p → ast.declContext p = some template
  method : ∀ {d p}, ast.From record d p → ast.isMethod p = ast.isMethod d
  field : ast.From record d p → ast.isField p = ast.isField d
  named : ∀ {d p}, ast.From record d p → ast.identifier p = ast.identifier d

/-- The first method of this name and of as many parameters, or the first field of this name. -/
def Ast.FirstOfKey (template d p : DeclId) : Prop :=
  ∃ before after, ast.members template = before ++ p::after ∧
    if ast.isMethod d then
      ast.parameterCount p = ast.parameterCount d ∧ ∀ other ∈ before, ast.isMethod other = true →
        ast.identifier other = ast.identifier p → ast.parameterCount other ≠ ast.parameterCount p
    else ∀ other ∈ before, ast.isField other = true → ast.identifier other ≠ ast.identifier p

end Members

section Resolved
variable (v : Visitor) (record : DeclId)

/-- The columns of a call of this function. -/
def Visitor.CallStored (d : DeclId) (key : RecordKey) (value : RecordValue) : Prop :=
  ∃ current loc, ∃ e ∈ v.addFunctionCall current d loc, e.item.columns v.hash = some (key,value)

-- the id that a function is stored under; none where the frontend generates no USR
def Visitor.storedId (d : DeclId) : Option Id :=
  optionalId (v.ast.decl (v.ast.decl d).canonical).usr (usrHash v.hash (v.ast.decl (v.ast.decl d).canonical).usr)

-- the rows that `find_references` asks for
def Visitor.referencesOf (d : DeclId) (variant : Text) (after : Option Cursor) (limit : Nat) : IdentityQuery where
  identity := ⟨variant,(v.identity d).symbol,(v.identity d).usrId,SymbolKind.function.code⟩
  after := after
  limit := limit
  record := .reference

/-- Each member of the instantiation is taken for the one it comes from, and so are its calls. -/
structure Visitor.Resolved : Prop where
  members : ∀ {d p}, v.ast.From record d p → v.ast.primaryValueDecl d = p
  distinct : ∀ {d e p q}, v.ast.From record d p → v.ast.From record e q → p ≠ q →
    v.ast.primaryValueDecl d ≠ v.ast.primaryValueDecl e
  calls : ∀ {d p key value}, v.ast.From record d p → v.ast.isMethod d = true → v.CallStored d key value →
    key.symbol = (v.identity p).symbol ∧ value.usrId = v.storedId p
  references : ∀ {d p q}, v.ast.From record d p → v.ast.isMethod d = true → (v.identity p).usrId ≠ (v.identity q).usrId →
    ∀ db variant after limit, ∀ row ∈ (v.referencesOf q variant after limit).options.select db, ¬v.CallStored d row.key row.value

end Resolved

section Proofs
variable {v : Visitor} {record template d p : DeclId}

/-- A member is found where it is the first of its key. -/
theorem primaryValueDecl_iff (instantiates : v.ast.Instantiates record template) (from' : v.ast.From record d p) :
    v.ast.primaryValueDecl d = p ↔ v.ast.FirstOfKey template d p := by
  have other : d ≠ p := by
    intro same
    have context := instantiates.listed from'
    rw [← same,from'.member] at context
    exact instantiates.apart (Option.some.inj context).symm
  have found (same : DeclId → Bool) : v.ast.primaryMember d same = p ↔ (v.ast.members template).find? same = some p := by
    unfold Ast.primaryMember
    rw [from'.member,Option.filter_some,if_pos instantiates.specialization]
    dsimp only
    rw [instantiates.primary,if_neg instantiates.apart]
    unfold Ast.members
    cases List.find? same (((v.ast.record? template).map RecordDecl.decls).getD []) with
    | none => simp [other]
    | some first => simp
  unfold Ast.primaryValueDecl Ast.FirstOfKey
  by_cases method : v.ast.isMethod d = true
  · have kind := (instantiates.method from').trans method
    rw [if_pos method,found,List.find?_eq_some_iff_append]
    simp only [if_pos method,instantiates.named from',kind,decide_true,Bool.true_and,decide_eq_true_eq]
    constructor
    · intro ⟨count,before,after,split,earlier⟩
      refine ⟨before,after,split,count,fun other listed isMethod named same => ?_⟩
      have absent := earlier other listed
      simp [isMethod,named,same.trans count] at absent
    · intro ⟨before,after,split,count,earlier⟩
      refine ⟨count,before,after,split,fun other listed => ?_⟩
      cases isMethod : v.ast.isMethod other with
      | false => rfl
      | true =>
        by_cases named : v.ast.identifier other = v.ast.identifier d
        · have apart := earlier other listed isMethod named
          rw [count] at apart
          simp [named,apart]
        · simp [named]
  · have field := from'.kind.resolve_left method
    have kind := (instantiates.field from').trans field
    rw [if_neg method,if_pos field,found,List.find?_eq_some_iff_append]
    simp only [if_neg method,instantiates.named from',kind,decide_true,Bool.true_and,true_and]
    refine exists_congr (fun before => exists_congr (fun after => and_congr_right (fun _ => forall₂_congr (fun other _ => ?_))))
    cases isField : v.ast.isField other <;> simp

-- the calls of a member are stored under what it is taken for
theorem call_stored {key : RecordKey} {value : RecordValue} (plain : v.lambdaCallee d = none) (stored : v.CallStored d key value) :
    key.symbol = (v.identity (v.ast.primaryValueDecl d)).symbol ∧ value.usrId = v.storedId (v.ast.primaryValueDecl d) := by
  obtain ⟨current,loc,e,member,columns⟩ := stored
  exact (call_columns member columns).2.2.2.2.1 plain |>.2

theorem references_own {q : DeclId} {db : Db} {variant : Text} {after : Option Cursor} {limit : Nat} {row : RecordRow}
    (found : row ∈ (v.referencesOf q variant after limit).options.select db) : row.value.usrId = some (v.identity q).usrId := by
  have ordered : row ∈ Relational.orderBy recordOrder ((joinedRecords db).filter (fun row =>
      (v.referencesOf q variant after limit).options.selects row &&
        (v.referencesOf q variant after limit).options.after.all (fun cursor => cursor.place < recordOrder row))) := by
    unfold QueryOptions.select Relational.limited at found
    split at found
    · exact found
    · exact List.mem_of_mem_take found
  have selected := (List.mem_filter.mp (Relational.mem_orderBy.mp ordered)).2
  simp only [QueryOptions.selects,QueryOptions.selectsBy,QueryOptions.selectsOther,IdentityQuery.options,Visitor.referencesOf,
    Option.all_some,Bool.and_eq_true,decide_eq_true_eq] at selected
  exact selected.1.2.1.2

/-- Members of an implicit instantiation resolve to the members they come from, and their calls are stored and
found under these, exactly where each of them is the first of its key in the template. -/
theorem template_members_iff (instantiates : v.ast.Instantiates record template) :
    v.Resolved record ↔ ∀ {d p}, v.ast.From record d p → v.ast.FirstOfKey template d p := by
  have plain {d p : DeclId} (from' : v.ast.From record d p) : v.lambdaCallee d = none := by
    unfold Visitor.lambdaCallee Ast.lambdaClosureFor
    rw [from'.member,Option.filter_some,instantiates.plain]
    split <;> rfl
  constructor
  · intro resolved d p from'
    exact (primaryValueDecl_iff instantiates from').mp (resolved.members from')
  · intro first
    have members {d p : DeclId} (from' : v.ast.From record d p) : v.ast.primaryValueDecl d = p :=
      (primaryValueDecl_iff instantiates from').mpr (first from')
    have calls {d p : DeclId} {key : RecordKey} {value : RecordValue} (from' : v.ast.From record d p)
        (stored : v.CallStored d key value) :
        key.symbol = (v.identity p).symbol ∧ value.usrId = v.storedId p := by
      have own := call_stored (plain from') stored
      rw [members from'] at own
      exact own
    refine ⟨members,?_,fun from' _ => calls from',?_⟩
    · intro d e p q one other differ same
      rw [members one,members other] at same
      exact differ same
    · intro d p q from' _ differ db variant after limit row found stored
      have own := (calls from' stored).2
      rw [references_own found] at own
      exact differ (usrId_some own.symm).2

end Proofs

section Samples

def sampleMethod (parameters : List DeclId) : FunctionDecl := {sampleFunction .method false with parameters}

-- `template <class T> struct S { void f(int); void f(long); };`,
-- `template <class T> struct U { void f(T); void g(T); void f(T, T); };`, `template struct S<int>; template struct U<int>;`
def templateDecls : List Decl := [
  { declClass := .other, name := [], canonical := 0, location := 0 },
  { declClass := .record ⟨false,true,1,[2,3],some ⟨false,false,none,some 1⟩⟩, name := "S".toList, usr := "S".toList,
    contexts := [0], canonical := 1, location := 1 },
  { declClass := .function (sampleMethod [0]), name := "f".toList, usr := "S@f#I".toList, contexts := [1,0], canonical := 2,
    location := 2 },
  { declClass := .function (sampleMethod [0]), name := "f".toList, usr := "S@f#L".toList, contexts := [1,0], canonical := 3,
    location := 3 },
  { declClass := .record ⟨false,true,1,[5,6],some ⟨false,true,some 1,none⟩⟩, name := "S".toList, usr := "S#I".toList,
    contexts := [0], canonical := 4, location := 1 },
  { declClass := .function (sampleMethod [0]), name := "f".toList, usr := "S#I@f#I".toList, contexts := [4,0], canonical := 5,
    location := 2, instantiatedFrom := some 2 },
  { declClass := .function (sampleMethod [0]), name := "f".toList, usr := "S#I@f#L".toList, contexts := [4,0], canonical := 6,
    location := 3, instantiatedFrom := some 3 },
  { declClass := .record ⟨false,true,1,[8,9,10],some ⟨false,false,none,some 7⟩⟩, name := "U".toList, usr := "U".toList,
    contexts := [0], canonical := 7, location := 4 },
  { declClass := .function (sampleMethod [0]), name := "f".toList, usr := "U@f#T".toList, contexts := [7,0], canonical := 8,
    location := 5 },
  { declClass := .function (sampleMethod [0]), name := "g".toList, usr := "U@g#T".toList, contexts := [7,0], canonical := 9,
    location := 6 },
  { declClass := .function (sampleMethod [0,0]), name := "f".toList, usr := "U@f#TT".toList, contexts := [7,0], canonical := 10,
    location := 7 },
  { declClass := .record ⟨false,true,1,[12,13,14],some ⟨false,true,some 7,none⟩⟩, name := "U".toList, usr := "U#I".toList,
    contexts := [0], canonical := 11, location := 4 },
  { declClass := .function (sampleMethod [0]), name := "f".toList, usr := "U#I@f#I".toList, contexts := [11,0], canonical := 12,
    location := 5, instantiatedFrom := some 8 },
  { declClass := .function (sampleMethod [0]), name := "g".toList, usr := "U#I@g#I".toList, contexts := [11,0], canonical := 13,
    location := 6, instantiatedFrom := some 9 },
  { declClass := .function (sampleMethod [0,0]), name := "f".toList, usr := "U#I@f#II".toList, contexts := [11,0], canonical := 14,
    location := 7, instantiatedFrom := some 10 }]

def templateAst : Ast := Ast.ofDecls templateDecls (SourceManager.ofText [] []) (by decide)

def templates : Visitor := ⟨templateAst,.project,true,true,textHash⟩

theorem templates_from {record d p : DeclId} (from' : templates.ast.From record d p) : d < 15 ∧
    (templates.ast.decl d).contexts.head? = some record ∧ templates.ast.isMethod p = templates.ast.isMethod d ∧
    templates.ast.isField p = templates.ast.isField d ∧ templates.ast.identifier p = templates.ast.identifier d ∧
    templates.ast.declContext p = some (templates.ast.primaryRecord record) := by
  have inside : d < 15 := by
    by_contra outside
    have absent : templateDecls[d]? = none := List.getElem?_eq_none (Nat.le_of_not_lt outside)
    have context := from'.member
    change ((templateDecls[d]?.getD .none).contexts).head? = some record at context
    rw [absent] at context
    cases context
  have all := (by decide : ∀ d < 15, ∀ p ∈ (templates.ast.decl d).instantiatedFrom,
    templates.ast.isMethod p = templates.ast.isMethod d ∧ templates.ast.isField p = templates.ast.isField d ∧
    templates.ast.identifier p = templates.ast.identifier d ∧
    templates.ast.declContext p = (templates.ast.declContext d).map templates.ast.primaryRecord) d inside p from'.pattern
  obtain ⟨method,field,named,context⟩ := all
  rw [from'.member] at context
  exact ⟨inside,from'.member,method,field,named,context⟩

theorem templates_instantiate {record template : DeclId} (specialization : templates.ast.isSpecialization (some record) = true)
    (primary : templates.ast.primaryRecord record = template) (apart : template ≠ record)
    (plain : templates.ast.isLambdaClosure record = false) : templates.ast.Instantiates record template :=
  ⟨specialization,primary,apart,plain,fun from' => primary ▸ (templates_from from').2.2.2.2.2,
    fun from' => (templates_from from').2.2.1,fun from' => (templates_from from').2.2.2.1,fun from' => (templates_from from').2.2.2.2.1⟩

-- three methods with three keys
theorem template_members_several : templates.Resolved 11 := by
  have instantiates : templates.ast.Instantiates 11 7 := templates_instantiate rfl rfl (by decide) rfl
  refine (template_members_iff instantiates).mpr (fun {d p} from' => ?_)
  have only := (by decide : ∀ d < 15, templates.ast.declContext d = some 11 → d = 12 ∨ d = 13 ∨ d = 14) d (templates_from from').1
    from'.member
  rcases only with rfl | rfl | rfl
  · cases from'.pattern
    exact ⟨[],[9,10],rfl,rfl,by decide⟩
  · cases from'.pattern
    exact ⟨[8],[10],rfl,rfl,by decide⟩
  · cases from'.pattern
    exact ⟨[8,9],[],rfl,rfl,by decide⟩

/-- `f(long)` of `S<int>` is taken for `f(int)` of the template. -/
theorem overload_taken_for_other : templates.ast.Instantiates 4 1 ∧ templates.ast.From 4 6 3 ∧
    templates.ast.primaryValueDecl 6 = 2 ∧ ¬templates.Resolved 4 := by
  have from' : templates.ast.From 4 6 3 := ⟨rfl,.inl rfl,rfl⟩
  refine ⟨templates_instantiate rfl rfl (by decide) rfl,from',rfl,fun resolved => ?_⟩
  exact absurd (resolved.members from') (by decide)

end Samples
end Semindex.Parser
