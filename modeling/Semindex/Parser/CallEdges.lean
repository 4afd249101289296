import Semindex.Parser.Visits
import Semindex.Parser.Records
import Semindex.Database.Rows

/-! Both ends of a stored call against the identities of the functions. The callee
is named by its declaration, the caller by the plain function the visitor is in. -/
namespace Semindex.Parser
open Semindex.Graph Semindex.IndexDb Semindex.Database

section Identity
variable (v : Visitor)

structure FunctionIdentity where
  symbol : Text
  usrId : Id
  deriving DecidableEq

/-- What `VisitFunctionDecl` stores a function under. -/
def Visitor.identity (d : DeclId) : FunctionIdentity :=
  ⟨qualifiedName (v.ast.getOwnerName d) (v.ast.getName d),v.usrId (v.ast.decl (v.ast.decl d).canonical).usr⟩

/-- The declaration, or the member of the template an instantiation took it from. -/
def Ast.pattern (ast : Ast) (d : DeclId) : DeclId := ((ast.decl d).instantiatedFrom).getD d

/-- What the frontend and the hash promise of functions: ids tell them apart, and redeclarations agree. -/
structure Visitor.Identifies : Prop where
  named : ∀ d, v.ast.isFunction d → v.ast.getName d ≠ []
  identified : ∀ d, v.ast.isFunction d → (v.identity d).usrId ≠ 0
  distinct : ∀ d e, v.ast.isFunction d → v.ast.isFunction e → (v.identity d).usrId = (v.identity e).usrId →
    (v.ast.decl d).canonical = (v.ast.decl e).canonical
  redeclared : ∀ d e, v.ast.isFunction d → v.ast.isFunction e →
    (v.ast.decl d).canonical = (v.ast.decl e).canonical →
    v.ast.getName d = v.ast.getName e ∧ v.ast.getOwnerName d = v.ast.getOwnerName e
  pattern : ∀ d, v.ast.isFunction d → v.ast.isFunction (v.ast.pattern d)

def Visitor.definition? (part : Part) : Option DeclId :=
  match part.node with
  | .decl d => if (v.ast.function? d).any FunctionDecl.hasBody then some d else none
  | _ => none

/-- The function definition around a node; a lambda belongs to the definition it stands in. -/
def Visitor.definition (around : List Part) : Option DeclId := around.findSome? v.definition?

variable {v}

theorem any_function {d : DeclId} {p : FunctionDecl → Bool} (found : (v.ast.function? d).any p = true) :
    ∃ f, v.ast.function? d = some f ∧ p f = true := by
  cases known : v.ast.function? d with
  | none =>
    rw [known] at found
    cases found
  | some f => exact ⟨f,rfl,by simpa [known] using found⟩

theorem isFunction_of_function {d : DeclId} {f : FunctionDecl} (known : v.ast.function? d = some f) :
    v.ast.isFunction d := by simp [Ast.isFunction,known]

theorem function_class {d : DeclId} {f : FunctionDecl} (known : v.ast.function? d = some f) :
    (v.ast.decl d).declClass = .function f := by
  unfold Ast.function? at known
  split at known
  · rename_i same
    rw [same,Option.some.inj known]
  · cases known

theorem Visitor.Identifies.identity_eq (ids : v.Identifies) {d e : DeclId} (first : v.ast.isFunction d)
    (second : v.ast.isFunction e) (same : (v.ast.decl d).canonical = (v.ast.decl e).canonical) :
    v.identity d = v.identity e := by
  obtain ⟨names,owners⟩ := ids.redeclared d e first second same
  rw [Visitor.identity,Visitor.identity,names,owners,same]

/-- Identities tell functions apart. -/
theorem Visitor.Identifies.identity_iff (ids : v.Identifies) {d e : DeclId} (first : v.ast.isFunction d)
    (second : v.ast.isFunction e) :
    v.identity d = v.identity e ↔ (v.ast.decl d).canonical = (v.ast.decl e).canonical :=
  ⟨fun same => ids.distinct d e first second (congrArg FunctionIdentity.usrId same),ids.identity_eq first second⟩

theorem definition_function {around : List Part} {F : DeclId} (inside : v.definition around = some F) :
    ∃ f, v.ast.function? F = some f ∧ f.hasBody = true := by
  obtain ⟨part,_,found⟩ := List.exists_of_findSome?_eq_some inside
  unfold Visitor.definition? at found
  split at found
  · split at found
    · rename_i body
      obtain rfl := Option.some.inj found
      exact any_function body
    · cases found
  · cases found

theorem enclosing_plain {around : List Part} {G : DeclId} (inside : v.enclosing around = some G) :
    ∃ f, v.ast.function? G = some f ∧ f.functionClass = .plain := by
  obtain ⟨part,_,found⟩ := List.exists_of_findSome?_eq_some inside
  unfold Visitor.plainFunction? at found
  split at found
  · split at found
    · rename_i plain
      obtain rfl := Option.some.inj found
      obtain ⟨f,known,is⟩ := any_function plain
      exact ⟨f,known,of_decide_eq_true is⟩
    · cases found
  · cases found

-- a plain function is its own primary declaration and has no owner
theorem plain_function {d : DeclId} {f : FunctionDecl} (known : v.ast.function? d = some f)
    (plain : f.functionClass = .plain) : v.ast.primaryValueDecl d = d ∧ v.ast.getOwnerName d = [] := by
  have isClass := function_class known
  have method : v.ast.isMethod d = false := by simp [Ast.isMethod,known,plain,FunctionClass.isMethod]
  have field : v.ast.isField d = false := by simp [Ast.isField,isClass]
  have owner : v.ast.hasRecordOwner d = false := by simp [Ast.hasRecordOwner,isClass,plain,FunctionClass.isMethod]
  constructor
  · simp [Ast.primaryValueDecl,method,field]
  · simp [Ast.getOwnerName,owner]

theorem primary_function {d : DeclId} (function : v.ast.isFunction d) : v.ast.isFunction (v.ast.primaryValueDecl d) := by
  unfold Ast.primaryValueDecl
  split
  · rcases primaryMember_cases v.ast d (fun p => v.ast.isMethod p && v.ast.identifier p = v.ast.identifier d &&
      v.ast.parameterCount p = v.ast.parameterCount d) with same | found
    · rwa [same]
    · obtain ⟨f,known,_⟩ := any_function (Bool.and_eq_true_iff.mp (Bool.and_eq_true_iff.mp found).1).1
      exact isFunction_of_function known
  · split
    · rename_i isField
      obtain ⟨f,known⟩ := Option.isSome_iff_exists.mp function
      simp [Ast.isField,function_class known] at isField
    · exact function

theorem usrId_present {usr : Text} (known : v.usrId usr ≠ 0) : optionalId usr (usrHash v.hash usr) = some (v.usrId usr) := by
  have present : usr ≠ [] := fun empty => known (by simp [Visitor.usrId,empty])
  simp [optionalId,usrHash,Visitor.usrId,present]

theorem usrId_some {usr : Text} {id : Id} (known : optionalId usr (usrHash v.hash usr) = some id) :
    usr ≠ [] ∧ v.usrId usr = id := by
  unfold optionalId at known
  split at known
  · cases known
  · rename_i present
    exact ⟨present,Option.some.inj known⟩

end Identity

section Symbols
variable {v : Visitor} {unit : Forest Part} {e : Emission}

theorem recordKind_other (d : DeclId) : v.ast.recordKindForDecl d ≠ .function := by
  rcases @recordKind_cases v d with kind | kind | kind | kind <;> simp [kind]

theorem indirect_listed {r : RecordDecl} {field indirect : DeclId} (listed : (field,indirect) ∈ v.indirectMembers r) :
    ∃ f, (v.ast.decl indirect).declClass = .indirectField f ∧ f.anonField = field := by
  obtain ⟨member,_,found⟩ := List.mem_filterMap.mp listed
  split at found
  · rename_i f isIndirect
    obtain ⟨rfl,rfl⟩ := Prod.mk.inj (Option.some.inj found)
    exact ⟨f,isIndirect,rfl⟩
  · cases found

theorem indirect_primary {d : DeclId} {f : IndirectFieldDecl} (isIndirect : (v.ast.decl d).declClass = .indirectField f) :
    v.ast.primaryValueDecl d = d := by
  simp [Ast.primaryValueDecl,Ast.isMethod,Ast.isField,Ast.function?,isIndirect]

-- the stored function is not in a specialization, so it is its own primary declaration
theorem recorded_primary {d : DeclId} {f : FunctionDecl} (known : v.ast.function? d = some f)
    (recorded : v.skipsFunction d f = false) : v.ast.primaryValueDecl d = d := by
  by_cases method : v.ast.isMethod d = true
  · have primary : v.ast.isSpecialization (v.ast.declContext d) = false := by
      simp only [Visitor.skipsFunction,method,Bool.true_and,Bool.or_eq_false_iff] at recorded
      exact recorded.1.1
    rw [Ast.primaryValueDecl,if_pos method,Ast.primaryMember]
    cases context : v.ast.declContext d with
    | none => rfl
    | some r =>
      rw [context] at primary
      simp [Option.filter,primary]
  · have field : v.ast.isField d = false := by simp [Ast.isField,function_class known]
    simp [Ast.primaryValueDecl,method,field]

/-- A function symbol is that of a function which is visited and not skipped. -/
theorem function_symbol {s : SemindexSymbol} (offered : e ∈ v.traverseDecl unit) (symbol : e.item = .symbol s)
    (kind : s.kind = .function) : ∃ d f, v.ast.function? d = some f ∧ v.skipsFunction d f = false ∧
      e = v.functionSymbol d f := by
  obtain ⟨part,around,seen,_,member⟩ := mem_traverseDecl.mp offered
  have declares := visit_symbol member symbol
  generalize part.node = node at declares
  cases declares with
  | function isFunction recorded first => exact ⟨_,_,by simp [Ast.function?,isFunction],recorded,rfl⟩
  | record named member =>
    obtain ⟨s',same,_,kinds⟩ := anonymousRecord_symbol member
    obtain rfl := SemindexItem.symbol.inj (symbol.symm.trans same)
    rw [kind] at kinds
    rcases kinds with other | other | other
    · cases other
    · exact absurd other.symm (recordKind_other _)
    · cases other
  | recordSymbol isRecord recorded =>
    obtain rfl := SemindexItem.symbol.inj symbol
    exact absurd kind (recordKind_other _)
  | field isField named primary =>
    obtain rfl := SemindexItem.symbol.inj symbol
    simp [Ast.symbolKindForDecl,isField] at kind
  | enum isEnum member =>
    rw [Visitor.visitEnumDecl] at member
    split at member
    · cases member
    · rw [List.mem_singleton.mp member] at symbol
      obtain rfl := SemindexItem.symbol.inj symbol
      cases kind
  | indirect isRecord recorded listed =>
    obtain rfl := SemindexItem.symbol.inj symbol
    obtain ⟨f,isIndirect,_⟩ := indirect_listed listed
    simp [Ast.valueInfo,indirect_primary isIndirect,Ast.symbolKindForDecl,isIndirect] at kind
  | variableSymbol isVar recorded =>
    obtain rfl := SemindexItem.symbol.inj symbol
    cases kind
  | typedef isTypedef recorded =>
    obtain rfl := SemindexItem.symbol.inj symbol
    cases kind
  | enumConstant isConstant =>
    obtain rfl := SemindexItem.symbol.inj symbol
    cases kind
  | signature isFunction recorded first => cases symbol

theorem function_symbol_identity (ids : v.Identifies) {d : DeclId} {f : FunctionDecl} {key : RecordKey}
    {value : RecordValue} (known : v.ast.function? d = some f) (recorded : v.skipsFunction d f = false)
    (columns : (v.functionSymbol d f).item.columns v.hash = some (key,value)) :
    key.symbol = (v.identity d).symbol ∧ value.usrId = some (v.identity d).usrId := by
  obtain ⟨rfl,rfl⟩ := Prod.mk.inj (Option.some.inj columns)
  refine ⟨rfl,?_⟩
  have usr : v.ast.functionUSR d = (v.ast.decl (v.ast.decl d).canonical).usr := by
    rw [Ast.functionUSR,recorded_primary known recorded]
  change optionalId (v.ast.functionUSR d) (usrHash v.hash (v.ast.functionUSR d)) = _
  rw [usr]
  exact usrId_present (ids.identified d (isFunction_of_function known))

end Symbols

section Edges
variable (v : Visitor) (unit : Forest Part) (F callee : DeclId)

-- a call of a lambda leads to its closure
def Visitor.lambdaCallee : Option DeclId := if v.ast.isMethod callee then v.ast.lambdaClosureFor callee else none

def Visitor.calleeIdentity : FunctionIdentity :=
  match v.lambdaCallee callee with
  | some closure => ⟨"__lambda".toList,v.usrId (v.ast.decl closure).usr⟩
  | none => v.identity (v.ast.pattern callee)

/-- The stored columns are those of the symbol row of this function. -/
def Visitor.SymbolRows (d : DeclId) (symbol : Text) (usrId : Option Id) : Prop :=
  ∀ e ∈ v.traverseDecl unit, ∀ other s key value, e.reference = .decl other → e.item = .symbol s →
    s.kind = .function → (v.ast.decl other).canonical = (v.ast.decl d).canonical →
    e.item.columns v.hash = some (key,value) → key.symbol = symbol ∧ value.usrId = usrId

/-- The stored call has the identities of both functions, which are those of their symbol rows, and the
callees of the caller include it. -/
structure EdgeClosed (key : RecordKey) (value : RecordValue) : Prop where
  callerNamed : value.context = (v.identity F).symbol ∧ value.contextUsrId = some (v.identity F).usrId
  calleeNamed : key.symbol = (v.calleeIdentity callee).symbol ∧ value.usrId = some (v.calleeIdentity callee).usrId
  callerRows : v.SymbolRows unit F value.context value.contextUsrId
  calleeRows : v.lambdaCallee callee = none → v.SymbolRows unit (v.ast.pattern callee) key.symbol value.usrId
  returned : ∀ db row, row ∈ joinedRecords db → row.key = key → row.value = value →
    ∀ variant, variant = none ∨ variant = some row.variant → ∃ records,
      collected (semindexDbQueryCalls db ⟨(v.identity F).symbol,variant,(v.identity F).usrId,.callees⟩) = some records ∧
        dbRecord row ∈ records

/-- The innermost plain function around the call is the definition of the function. -/
def Visitor.CallerIs (around : List Part) : Prop := ∃ G f, v.enclosing around = some G ∧
  v.ast.function? G = some f ∧ f.hasBody = true ∧ (v.ast.decl G).canonical = (v.ast.decl F).canonical

variable {v unit F callee} {current : CurrentFunction} {loc : SourceLocation} {e : Emission} {key : RecordKey}
  {value : RecordValue}

theorem call_columns (member : e ∈ v.addFunctionCall current callee loc)
    (columns : e.item.columns v.hash = some (key,value)) :
    value.context = current.name ∧ value.contextUsrId = optionalId current.usr (usrHash v.hash current.usr) ∧
    key.record = 1 ∧ key.action = 3 ∧
    (v.lambdaCallee callee = none → key.kind = 7 ∧
      key.symbol = qualifiedName (v.ast.valueInfo v.details callee).owner (v.ast.valueInfo v.details callee).name ∧
      value.usrId = optionalId (v.ast.functionUSR callee) (usrHash v.hash (v.ast.functionUSR callee))) ∧
    (v.lambdaCallee callee ≠ none → key.kind = 11) := by
  unfold Visitor.addFunctionCall at member
  unfold Visitor.lambdaCallee
  split at member
  · cases member
  · dsimp only at member
    generalize (if v.ast.isMethod callee then v.ast.lambdaClosureFor callee else none) = closure at member ⊢
    cases closure with
    | none =>
      rw [List.mem_singleton.mp member] at columns
      obtain ⟨rfl,rfl⟩ := Prod.mk.inj (Option.some.inj columns)
      exact ⟨rfl,rfl,rfl,rfl,fun _ => ⟨rfl,rfl,rfl⟩,fun absent => absurd rfl absent⟩
    | some closure =>
      rw [List.mem_singleton.mp member] at columns
      obtain ⟨rfl,rfl⟩ := Prod.mk.inj (Option.some.inj columns)
      refine ⟨rfl,rfl,rfl,rfl,?_,fun _ => rfl⟩
      intro absent
      cases absent

theorem calls_selects {db : Db} {row : RecordRow} {opts : CallOptions} (direction : opts.direction = .callees) :
    row ∈ opts.select db ↔ row ∈ joinedRecords db ∧ row.value.context = opts.function ∧
      row.value.contextUsrId = some opts.usrId ∧ opts.variant.all (fun variant => row.variant = variant) ∧
      row.key.record = 1 ∧ row.key.action = 3 ∧ row.key.kind = 7 := by
  rw [CallOptions.select,Relational.mem_orderBy,List.mem_filter]
  simp [CallOptions.selects,direction,and_assoc]

theorem asCurrent_plain {G : DeclId} {f : FunctionDecl} (known : v.ast.function? G = some f)
    (plain : f.functionClass = .plain) (body : f.hasBody = true) :
    v.asCurrent G = ⟨(v.identity G).symbol,(v.ast.decl (v.ast.decl G).canonical).usr,(v.identity G).usrId⟩ := by
  obtain ⟨primary,owner⟩ := plain_function known plain
  simp [Visitor.asCurrent,known,body,Ast.functionUSR,primary,Visitor.identity,owner]

theorem current_caller (ids : v.Identifies) {around : List Part} (isFunction : v.ast.isFunction F) :
    ((v.current around).name = (v.identity F).symbol ∧
      optionalId (v.current around).usr (usrHash v.hash (v.current around).usr) = some (v.identity F).usrId) ↔
      v.CallerIs F around := by
  rw [current_eq]
  cases inside : v.enclosing around with
  | none =>
    constructor
    · intro ⟨_,known⟩
      cases (usrId_some known).1 rfl
    · intro ⟨G,f,found,_⟩
      rw [inside] at found
      cases found
  | some G =>
    obtain ⟨f,known,plain⟩ := enclosing_plain inside
    have function := isFunction_of_function known
    rw [Option.map_some,Option.getD_some]
    constructor
    · intro ⟨_,own⟩
      obtain ⟨present,id⟩ := usrId_some own
      have body : f.hasBody = true := by
        by_contra bare
        exact present (by simp [Visitor.asCurrent,known,bare])
      rw [asCurrent_plain known plain body] at id
      exact ⟨G,f,inside,known,body,ids.distinct G F function isFunction id⟩
    · intro ⟨G',f',found,known',body,same⟩
      obtain rfl := Option.some.inj (inside.symm.trans found)
      obtain rfl := Option.some.inj (known.symm.trans known')
      rw [asCurrent_plain known plain body,← ids.identity_eq function isFunction same]
      exact ⟨rfl,usrId_present (ids.identified G function)⟩

theorem callee_named (ids : v.Identifies) (function : v.ast.isFunction callee) (direct : v.lambdaCallee callee = none)
    (member : e ∈ v.addFunctionCall current callee loc) (columns : e.item.columns v.hash = some (key,value)) :
    (key.symbol = (v.calleeIdentity callee).symbol ∧ value.usrId = some (v.calleeIdentity callee).usrId) ↔
      (v.ast.decl (v.ast.primaryValueDecl callee)).canonical = (v.ast.decl (v.ast.pattern callee)).canonical := by
  obtain ⟨_,symbol,usrId⟩ := (call_columns member columns).2.2.2.2.1 direct
  have primary := primary_function function
  have pattern := ids.pattern callee function
  have named : v.calleeIdentity callee = v.identity (v.ast.pattern callee) := by
    simp [Visitor.calleeIdentity,direct]
  have own : key.symbol = (v.identity (v.ast.primaryValueDecl callee)).symbol ∧
      value.usrId = some (v.identity (v.ast.primaryValueDecl callee)).usrId :=
    ⟨symbol,usrId.trans (usrId_present (ids.identified _ primary))⟩
  rw [named,own.1,own.2]
  constructor
  · intro ⟨_,same⟩
    exact ids.distinct _ _ primary pattern (Option.some.inj same)
  · intro same
    rw [ids.identity_eq primary pattern same]
    exact ⟨rfl,rfl⟩

theorem symbolRows_identity (ids : v.Identifies) {d : DeclId} (function : v.ast.isFunction d) :
    v.SymbolRows unit d (v.identity d).symbol (some (v.identity d).usrId) := by
  intro e offered other s key value reference symbol kind same columns
  obtain ⟨own,f,known,recorded,rfl⟩ := function_symbol offered symbol kind
  obtain rfl := Reference.decl.inj reference
  obtain ⟨symbols,usrIds⟩ := function_symbol_identity ids known recorded columns
  have identity := ids.identity_eq (isFunction_of_function known) function same
  exact ⟨identity ▸ symbols,identity ▸ usrIds⟩

/-- A direct call in a function definition is a closed edge just where the innermost plain function around it is
that definition, the callee is no lambda, and a member of an instantiation is taken for the member it comes from. -/
theorem call_edges_closed_iff {part : Part} {around : List Part} {seen : Seen} (ids : v.Identifies)
    (isCall : part.node = .call (some callee) loc ∨ part.node = .construct callee loc)
    (function : v.ast.isFunction callee) (inside : v.definition around = some F)
    (offered : e ∈ (v.visit (v.current (part::around)) seen part.slot around part.node).1)
    (columns : e.item.columns v.hash = some (key,value)) :
    EdgeClosed v unit F callee key value ↔ v.CallerIs F around ∧ v.lambdaCallee callee = none ∧
      (v.ast.decl (v.ast.primaryValueDecl callee)).canonical = (v.ast.decl (v.ast.pattern callee)).canonical := by
  obtain ⟨f,known,_⟩ := definition_function inside
  have isFunction := isFunction_of_function known
  have outside : v.current (part::around) = v.current around := by
    rw [current_eq,current_eq]
    have none : v.plainFunction? part = none := by
      rcases isCall with same | same <;> simp [Visitor.plainFunction?,same]
    simp [Visitor.enclosing,none]
  have member : e ∈ v.addFunctionCall (v.current around) callee (v.ast.sm.spelling loc) := by
    rw [outside] at offered
    rcases isCall with same | same <;> rw [same] at offered <;> exact offered
  obtain ⟨context,contextUsrId,isUse,isAction,_,lambda⟩ := call_columns member columns
  have caller := @current_caller v F ids around isFunction
  rw [← context,← contextUsrId] at caller
  constructor
  · intro closed
    have direct : v.lambdaCallee callee = none := by
      by_contra isLambda
      obtain ⟨records,answered,found⟩ := closed.returned (Db.holding ⟨[],[],key,value⟩) ⟨[],[],key,value⟩
        (by rw [joinedRecords_holding]; exact List.mem_cons_self) rfl rfl none (.inl rfl)
      rw [collected_calls] at answered
      split at answered
      · cases answered
      · obtain rfl := Option.some.inj answered
        obtain ⟨row,selected,same⟩ := List.mem_map.mp found
        have kinds := congrArg DbRecord.kind same
        have kind : row.key.kind = 7 := ((calls_selects rfl).mp selected).2.2.2.2.2.2
        rw [dbRecord,dbRecord,kind,lambda isLambda] at kinds
        cases kinds
    exact ⟨caller.mp closed.callerNamed,direct,(callee_named ids function direct member columns).mp closed.calleeNamed⟩
  · intro facts
    obtain ⟨own,direct,primary⟩ := facts
    have named := caller.mpr own
    have target := (callee_named ids function direct member columns).mpr primary
    have pattern : v.calleeIdentity callee = v.identity (v.ast.pattern callee) := by
      simp [Visitor.calleeIdentity,direct]
    refine ⟨named,target,?_,fun _ => ?_,?_⟩
    · rw [named.1,named.2]
      exact symbolRows_identity ids isFunction
    · rw [target.1,target.2,pattern]
      exact symbolRows_identity ids (ids.pattern callee function)
    · intro db row listed sameKey sameValue variant selected
      subst sameKey sameValue
      have present : (v.identity F).symbol ≠ [] := by
        obtain ⟨G,g,found,function',_,same⟩ := own
        obtain ⟨g',known',plain⟩ := enclosing_plain found
        have isFunction' := isFunction_of_function known'
        rw [← ids.identity_eq isFunction' isFunction same,Visitor.identity,(plain_function known' plain).2]
        exact ids.named G isFunction'
      rw [collected_calls,if_neg present]
      refine ⟨_,rfl,List.mem_map_of_mem ((calls_selects rfl).mpr ?_)⟩
      refine ⟨listed,named.1,named.2,?_,isUse,isAction,((call_columns member columns).2.2.2.2.1 direct).1⟩
      rcases selected with rfl | rfl <;> simp

end Edges

section Samples

def sampleFunction (functionClass : FunctionClass) (hasBody : Bool) : FunctionDecl where
  functionClass := functionClass
  type := intType
  returnType := intType
  parameters := []
  variadic := false
  hasBody := hasBody
  isDefinition := hasBody
  hasPrototype := true
  hasDefinition := hasBody
  redecls := []
  constructorAttr := false
  destructorAttr := false

-- `int g(); struct S { int m() { g(); } }; int f() { g(); }`
def callsDecls : List Decl := [
  { declClass := .other, name := [], canonical := 0, location := 0 },
  { declClass := .record ⟨false,true,19,[2],some ⟨false,false,none,none⟩⟩, name := "S".toList, usr := "c:@S@S".toList,
    contexts := [0], canonical := 1, location := 17 },
  { declClass := .function (sampleFunction .method true), name := "m".toList, usr := "c:@S@S@F@m#".toList,
    contexts := [1,0], canonical := 2, location := 25 },
  { declClass := .function (sampleFunction .plain false), name := "g".toList, usr := "c:@F@g#".toList,
    contexts := [0], canonical := 3, location := 5 },
  { declClass := .function (sampleFunction .plain true), name := "f".toList, usr := "c:@F@f#".toList,
    contexts := [0], canonical := 4, location := 45 }]

def callsAst : Ast := Ast.ofDecls callsDecls
  (SourceManager.ofText "a.cc".toList "int g(); struct S { int m() { g(); } }; int f() { g(); }".toList) (by decide)

def calls : Visitor := ⟨callsAst,.project,true,true,textHash⟩

def callsUnit : Forest Part :=
  .node ⟨.other,.decl 3⟩ .nil (.node ⟨.other,.decl 1⟩
    (.node ⟨.other,.decl 2⟩ (.node ⟨.other,.call (some 3) 31⟩ .nil .nil) .nil)
    (.node ⟨.other,.decl 4⟩ (.node ⟨.other,.call (some 3) 51⟩ .nil .nil) .nil))

theorem calls_listed {d : DeclId} (function : calls.ast.isFunction d) : d < 5 :=
  @listed_function callsAst callsDecls rfl d function

theorem calls_identified : calls.Identifies where
  named d function := (by decide : ∀ d < 5, calls.ast.isFunction d → calls.ast.getName d ≠ []) d
    (calls_listed function) function
  identified d function := (by decide : ∀ d < 5, calls.ast.isFunction d → (calls.identity d).usrId ≠ 0) d
    (calls_listed function) function
  distinct d e first second := (by decide : ∀ d < 5, ∀ e < 5, calls.ast.isFunction d → calls.ast.isFunction e →
    (calls.identity d).usrId = (calls.identity e).usrId →
    (calls.ast.decl d).canonical = (calls.ast.decl e).canonical) d (calls_listed first) e
    (calls_listed second) first second
  redeclared d e first second same := by
    have equal := (by decide : ∀ d < 5, ∀ e < 5, (calls.ast.decl d).canonical = (calls.ast.decl e).canonical → d = e) d
      (calls_listed first) e (calls_listed second) same
    rw [equal]
    exact ⟨rfl,rfl⟩
  pattern d function := (by decide : ∀ d < 5, calls.ast.isFunction d → calls.ast.isFunction (calls.ast.pattern d)) d
    (calls_listed function) function

theorem call_edges_closed_plain : ∃ e key value, e ∈ calls.traverseDecl callsUnit ∧
    e.item.columns textHash = some (key,value) ∧ EdgeClosed calls callsUnit 4 3 key value := by
  have offered : ∃ e rest, (calls.visit (calls.current [⟨.other,.call (some 3) 51⟩,⟨.other,.decl 4⟩]) Seen.empty .other
      [⟨.other,.decl 4⟩] (.call (some 3) 51)).1 = e::rest := ⟨_,_,rfl⟩
  obtain ⟨e,rest,same⟩ := offered
  have member : e ∈ calls.traverseDecl callsUnit := by
    obtain ⟨rfl,_⟩ := List.cons.inj same
    exact List.mem_of_getElem? (i := 8) rfl
  obtain ⟨key,value,columns⟩ : ∃ key value, e.item.columns textHash = some (key,value) := by
    obtain ⟨rfl,_⟩ := List.cons.inj same
    exact ⟨_,_,rfl⟩
  refine ⟨e,key,value,member,columns,?_⟩
  refine (@call_edges_closed_iff calls callsUnit 4 3 51 e key value ⟨.other,.call (some 3) 51⟩ [⟨.other,.decl 4⟩]
    Seen.empty calls_identified (.inl rfl) rfl rfl (by rw [same]; exact List.mem_cons_self) columns).mpr ?_
  exact ⟨⟨4,_,rfl,rfl,rfl,rfl⟩,rfl,rfl⟩

/-- The call in the member function is stored without a caller. -/
theorem member_call_unattributed : calls.Identifies ∧ ∃ e key value, e ∈ calls.traverseDecl callsUnit ∧
    e.item.columns textHash = some (key,value) ∧ calls.definition [⟨.other,.decl 2⟩,⟨.other,.decl 1⟩] = some 2 ∧
    (calls.identity 2).symbol = "S.m".toList ∧ value.context = [] ∧ ¬ EdgeClosed calls callsUnit 2 3 key value := by
  refine ⟨calls_identified,_,_,_,List.mem_of_getElem? (i := 5) rfl,rfl,rfl,rfl,rfl,?_⟩
  intro closed
  exact absurd closed.callerNamed.1 (by decide)

end Samples
end Semindex.Parser