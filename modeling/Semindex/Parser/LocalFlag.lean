import Semindex.Parser.CallEdges
import Semindex.Lsp.Exact

/-! The local flag of symbols and uses. A symbol is flagged by the function the
visitor is in, a use by that function and the linkage of what it names. -/
namespace Semindex.Parser
open Semindex.Relational Semindex.Graph Semindex.IndexDb Semindex.Database Semindex.Lsp

section Places
variable (v : Visitor)

/-- The name of the innermost plain function around, or nothing. -/
def Visitor.enclosingName (around : List Part) : Text := ((v.enclosing around).map v.ast.getName).getD []

/-- In the definition of a function, a method or a lambda. -/
def Visitor.inDefinition (around : List Part) : Bool := around.any (fun part => match part.node with
  | .lambda => true
  | .decl d => (v.ast.function? d).any FunctionDecl.hasBody
  | _ => false)

def Ast.isEnumConstant (ast : Ast) (d : DeclId) : Bool :=
  match (ast.decl d).declClass with
  | .enumConstant _ => true
  | _ => false

/-- The entity is declared in no function, block or record. -/
def Ast.fileScope (ast : Ast) (d : DeclId) : Bool :=
  (ast.decl (ast.decl d).canonical).contexts.all (fun context => match (ast.decl context).declClass with
    | .function _ | .block | .record _ => false
    | _ => true)

/-- Variables and parameters, and the functions and enumerators of the file scope. -/
def Visitor.Flagged (d : DeclId) : Prop :=
  v.isVar d = true ∨ ((v.isPlain d = true ∨ v.ast.isEnumConstant d = true) ∧ v.ast.fileScope d = true)

structure Visitor.SameEntity (d d' : DeclId) : Prop where
  canonical : (v.ast.decl d).canonical = (v.ast.decl d').canonical
  kind : v.ast.symbolKindForDecl d = v.ast.symbolKindForDecl d'
  flagged : v.Flagged d ∧ v.Flagged d'

/-- The visitor with local items or without. -/
def Visitor.including (includeLocal : Bool) : Visitor := {v with includeLocal}

-- the variable has a symbol where local items are included
def Visitor.records (d : DeclId) (var : VarDecl) : Bool :=
  v.ast.getName d ≠ [] && !v.isNonDefinitionParameter d var && v.ast.sm.inScope v.scope (v.ast.decl d).location

variable {v}

theorem current_name (around : List Part) : (v.current around).name = v.enclosingName around := by
  rw [current_eq,Visitor.enclosingName]
  cases v.enclosing around <;> rfl

theorem enclosingName_cons {part : Part} {around : List Part} (other : v.plainFunction? part = none) :
    v.enclosingName (part::around) = v.enclosingName around := by
  simp [Visitor.enclosingName,Visitor.enclosing,other]

theorem including_current (includeLocal : Bool) (around : List Part) :
    (v.including includeLocal).current around = v.current around := rfl

end Places

section Sites
variable (v : Visitor) (unit : Forest Part)

/-- Where the source declares something and the visitor records it, with the flag of its symbol, its context and
its token. -/
inductive Visitor.DeclaredAt : DeclId → Bool → Text → SourceLocation → Prop
  | ofVariable {part : Part} {around : List Part} {d : DeclId} {var : VarDecl}
      (visited : (part,around) ∈ unit.visits []) (node : part.node = .decl d)
      (isVar : (v.ast.decl d).declClass = .var var) (recorded : v.records d var = true) :
      DeclaredAt d (v.enclosingName around ≠ []) (v.enclosingName around) (v.ast.decl d).location
  | function {part : Part} {around : List Part} {before after : List (Part × List Part)} {d : DeclId}
      {f : FunctionDecl} (order : unit.visits [] = before ++ (part,around)::after) (node : part.node = .decl d)
      (isFunction : (v.ast.decl d).declClass = .function f) (recorded : v.skipsFunction d f = false)
      (first : ∀ site ∈ before, ¬ v.FunctionAt site.1.node (v.ast.decl d).canonical)
      (inside : v.ast.sm.inScope v.scope (v.ast.decl d).location = true) :
      DeclaredAt d false [] (v.ast.decl d).location
  | enumConstant {part : Part} {around : List Part} {d : DeclId} {type : QualType}
      (visited : (part,around) ∈ unit.visits []) (node : part.node = .decl d)
      (isConstant : (v.ast.decl d).declClass = .enumConstant type)
      (inside : v.ast.sm.inScope v.scope (v.ast.decl d).location = true) :
      DeclaredAt d false [] (v.ast.decl d).location

/-- The calls of a node: by its expression or by a cleanup of the variable it declares. -/
inductive Visitor.CallsAt : Node → DeclId → SourceLocation → Prop
  | call {callee : DeclId} {loc : SourceLocation} : CallsAt (.call (some callee) loc) callee (v.ast.sm.spelling loc)
  | construct {constructor : DeclId} {loc : SourceLocation} :
      CallsAt (.construct constructor loc) constructor (v.ast.sm.spelling loc)
  | cleanup {d : DeclId} {var : VarDecl} {cleanup : CleanupAttr} (isVar : (v.ast.decl d).declClass = .var var)
      (attached : var.cleanup = some cleanup) : CallsAt (.decl d) cleanup.function (v.cleanupLocation cleanup)

/-- Where the source uses something, with the flag of the use, its context and its token. -/
inductive Visitor.UsedAt : DeclId → Bool → Text → SourceLocation → Prop
  | reference {part : Part} {around : List Part} {d : DeclId} {loc : SourceLocation} {isFunctionType : Bool}
      (visited : (part,around) ∈ unit.visits []) (node : part.node = .declRef d loc isFunctionType)
      (counted : (v.ast.isFunction d && isDirectCallCallee part.slot around) = false)
      (inside : v.ast.sm.inScope v.scope (v.ast.sm.spelling loc) = true) :
      UsedAt d (v.enclosingName around ≠ [] && (v.ast.decl d).linkage ≠ .external) (v.enclosingName around)
        (v.ast.sm.spelling loc)
  | initialized {part : Part} {around : List Part} {d : DeclId} {var : VarDecl}
      (visited : (part,around) ∈ unit.visits []) (node : part.node = .decl d)
      (isVar : (v.ast.decl d).declClass = .var var) (recorded : v.records d var = true)
      (initialized : var.hasInit = true) :
      UsedAt d (v.enclosingName around ≠ []) (v.enclosingName around) (v.ast.decl d).location
  | member {part : Part} {around : List Part} {d : DeclId} {arrow : Bool} {base : MemberBase} {loc : SourceLocation}
      {isFunctionType : Bool} (visited : (part,around) ∈ unit.visits [])
      (node : part.node = .member d arrow base loc isFunctionType)
      (inside : v.ast.sm.inScope v.scope (v.ast.sm.spelling loc) = true) :
      UsedAt d false (v.enclosingName around) (v.ast.sm.spelling loc)
  | called {part : Part} {around : List Part} {d : DeclId} {loc : SourceLocation}
      (visited : (part,around) ∈ unit.visits []) (call : v.CallsAt part.node d loc) (valid : loc ≠ 0)
      (inside : v.ast.sm.inScope v.scope loc = true) (isFunction : v.ast.isFunction d = true) :
      UsedAt d false (v.enclosingName around) loc
  | aliased {part : Part} {around : List Part} {d target : DeclId} {attr : AliasAttr}
      (visited : (part,around) ∈ unit.visits []) (node : part.node = .decl d)
      (declared : v.isVar d = true ∨ v.ast.isFunction d = true) (attached : (v.ast.decl d).aliasAttr = some attr)
      (found : v.aliasTarget d attr = some target)
      (inside : v.ast.sm.inScope v.scope (v.ast.sm.spelling (v.aliasLocation attr)) = true) :
      UsedAt target false [] (v.ast.sm.spelling (v.aliasLocation attr))

end Sites

section Recorded
variable (v : Visitor) (unit : Forest Part) (includeLocal : Bool)

-- what a use names, also by a member expression
def Reference.value? : Reference → Option DeclId
  | .decl d | .member d _ => some d
  | .named _ => none

/-- The visit of the part adds the symbol of the declaration to the index. -/
structure Visitor.SymbolAt (part : Part) (around : List Part) (d : DeclId) (e : Emission) (s : SemindexSymbol) :
    Prop where
  offered : ∃ seen, (v.including includeLocal).Reaches unit part around seen ∧
    e ∈ ((v.including includeLocal).visit (v.current (part::around)) seen part.slot around part.node).1
  inside : e.inScope = true
  reference : e.reference = .decl d
  item : e.item = .symbol s
  kind : s.kind = v.ast.symbolKindForDecl d

/-- The use is in the index, and it is one of the declaration. -/
structure Visitor.UseOf (d : DeclId) (e : Emission) (u : SemindexUse) : Prop where
  offered : e ∈ (v.including includeLocal).traverseDecl unit
  inside : e.inScope = true
  reference : e.reference.value? = some d
  item : e.item = .use u
  kind : u.symbolKind = v.ast.symbolKindForDecl d

/-- What the visit of the declaration recorded. -/
inductive Visitor.Recorded (part : Part) (around : List Part) (d : DeclId) : Emission → Prop
  | ofVariable {var : VarDecl} (isVar : (v.ast.decl d).declClass = .var var)
      (kept : (v.including includeLocal).skipsVariable (v.current (part::around)) d var = false) :
      Recorded part around d (v.variableSymbol (v.current (part::around)) d var)
  | function {f : FunctionDecl} {seen : Seen} (reached : (v.including includeLocal).Reaches unit part around seen)
      (isFunction : (v.ast.decl d).declClass = .function f) (recorded : v.skipsFunction d f = false)
      (first : (v.ast.decl d).canonical ∉ seen.functionSymbols) : Recorded part around d (v.functionSymbol d f)
  | enumConstant {type : QualType} (isConstant : (v.ast.decl d).declClass = .enumConstant type) :
      Recorded part around d (v.enumConstantSymbol d type)

structure Summary where
  isLocal : Bool
  context : Text
  loc : SemindexSourceLocation
  name : Text
  owner : Text

def SemindexSymbol.summary (s : SemindexSymbol) : Summary := ⟨s.isLocal,s.context,s.loc,s.name,s.owner⟩
def SemindexUse.summary (u : SemindexUse) : Summary := ⟨u.isLocal,u.context,u.loc,u.name,u.owner⟩

-- of an item of the declaration, which has no owner
def Visitor.summary (d : DeclId) (flag : Bool) (context : Text) (token : SourceLocation) : Summary :=
  ⟨flag,context,v.ast.sm.location token,v.ast.getName d,[]⟩

variable {v unit includeLocal} {part : Part} {around : List Part} {d : DeclId} {e : Emission} {s : SemindexSymbol}
  {u : SemindexUse} {flag : Bool} {context : Text} {token : SourceLocation}

theorem flagged_cases (flagged : v.Flagged d) : (∃ var, (v.ast.decl d).declClass = .var var) ∨
    (∃ f, (v.ast.decl d).declClass = .function f ∧ f.functionClass = .plain) ∨
      ∃ type, (v.ast.decl d).declClass = .enumConstant type := by
  rcases flagged with isVar | ⟨isPlain | isConstant,_⟩
  · unfold Visitor.isVar at isVar
    split at isVar
    · exact .inl ⟨_,‹_›⟩
    · cases isVar
  · obtain ⟨f,known,plain⟩ := any_function isPlain
    exact .inr (.inl ⟨f,function_class known,of_decide_eq_true plain⟩)
  · unfold Ast.isEnumConstant at isConstant
    split at isConstant
    · exact .inr (.inr ⟨_,‹_›⟩)
    · cases isConstant

theorem flagged_kind (flagged : v.Flagged d) : v.ast.symbolKindForDecl d = .var ∨
    v.ast.symbolKindForDecl d = .function ∨ v.ast.symbolKindForDecl d = .enumConstant := by
  rcases flagged_cases flagged with ⟨_,isClass⟩ | ⟨_,isClass,_⟩ | ⟨_,isClass⟩ <;>
    simp [Ast.symbolKindForDecl,isClass]

-- such a declaration stands for itself, under its name alone
theorem flagged_value (flagged : v.Flagged d) : v.ast.primaryValueDecl d = d ∧ v.ast.getOwnerName d = [] := by
  rcases flagged_cases flagged with ⟨_,isClass⟩ | ⟨f,isClass,plain⟩ | ⟨_,isClass⟩
  · simp [Ast.primaryValueDecl,Ast.isMethod,Ast.isField,Ast.function?,Ast.getOwnerName,Ast.hasRecordOwner,isClass]
  · exact plain_function (by simp [Ast.function?,isClass]) plain
  · simp [Ast.primaryValueDecl,Ast.isMethod,Ast.isField,Ast.function?,Ast.getOwnerName,Ast.hasRecordOwner,isClass]

theorem symbolAt_recorded (flagged : v.Flagged d) (recorded : v.SymbolAt unit includeLocal part around d e s) :
    part.node = .decl d ∧ v.Recorded unit includeLocal part around d e := by
  obtain ⟨⟨seen,reached,member⟩,_,reference,symbol,kind⟩ := recorded
  have declares := visit_symbol member symbol
  generalize same : part.node = node at declares
  have classes := flagged_cases flagged
  cases declares with
  | record named member =>
    obtain ⟨s',item,_,kinds⟩ := anonymousRecord_symbol member
    obtain rfl := SemindexItem.symbol.inj (symbol.symm.trans item)
    rw [kind] at kinds
    rcases flagged_kind flagged with of | of | of <;> rw [of] at kinds <;> rcases kinds with other | other | other
    all_goals
      first
      | cases other
      | rcases @recordKind_cases (v.including includeLocal) _ with is | is | is | is <;> rw [is] at other <;> cases other
  | variableSymbol isVar kept =>
    obtain rfl := Reference.decl.inj reference
    exact ⟨rfl,.ofVariable isVar kept⟩
  | function isFunction recorded first =>
    obtain rfl := Reference.decl.inj reference
    exact ⟨rfl,.function reached isFunction recorded first⟩
  | enumConstant isConstant =>
    obtain rfl := Reference.decl.inj reference
    exact ⟨rfl,.enumConstant isConstant⟩
  | field isField named primary =>
    obtain rfl := Reference.decl.inj reference
    change (v.ast.decl _).declClass = _ at isField
    simp [isField] at classes
  | typedef isTypedef recorded =>
    obtain rfl := Reference.decl.inj reference
    change (v.ast.decl _).declClass = _ at isTypedef
    simp [isTypedef] at classes
  | recordSymbol isRecord recorded =>
    obtain rfl := Reference.decl.inj reference
    change (v.ast.decl _).declClass = _ at isRecord
    simp [isRecord] at classes
  | indirect isRecord recorded listed =>
    obtain rfl := Reference.decl.inj reference
    obtain ⟨f,isIndirect,_⟩ := indirect_listed listed
    change (v.ast.decl _).declClass = _ at isIndirect
    simp [isIndirect] at classes
  | enum isEnum member =>
    rw [Visitor.visitEnumDecl] at member
    split at member
    · cases member
    · rw [List.mem_singleton.mp member] at reference
      obtain rfl := Reference.decl.inj reference
      change (v.ast.decl _).declClass = _ at isEnum
      simp [isEnum] at classes
  | signature isFunction recorded first => cases symbol

theorem skipsVariable_including {current : CurrentFunction} {var : VarDecl} :
    (v.including includeLocal).skipsVariable current d var = false ↔
      (v.ast.getName d ≠ [] ∧ v.isNonDefinitionParameter d var = false) ∧
        (includeLocal = true ∨ current.name = []) := by
  simp only [Visitor.skipsVariable,Bool.or_eq_false_iff,decide_eq_false_iff_not,Bool.and_eq_false_iff,
    Bool.not_eq_false',not_not]
  exact Iff.rfl

theorem functionAt_including {node : Node} {c : DeclId} :
    (v.including includeLocal).FunctionAt node c ↔ v.FunctionAt node c := by
  constructor
  · intro found
    cases found with
    | intro isFunction recorded => exact .intro isFunction recorded
  · intro found
    cases found with
    | intro isFunction recorded => exact @Visitor.FunctionAt.intro (v.including includeLocal) _ _ isFunction recorded

theorem current_var {var : VarDecl} (node : part.node = .decl d) (isVar : (v.ast.decl d).declClass = .var var) :
    v.enclosingName (part::around) = v.enclosingName around := by
  apply enclosingName_cons
  simp [Visitor.plainFunction?,node,Visitor.isPlain,Ast.function?,isVar]

/-- The symbols of the index are those of the places that declare. -/
theorem symbolAt_declaredAt (flagged : v.Flagged d) (recorded : v.SymbolAt unit includeLocal part around d e s) :
    ∃ flag context token, v.DeclaredAt unit d flag context token ∧ s.summary = v.summary d flag context token := by
  obtain ⟨node,kept⟩ := symbolAt_recorded flagged recorded
  obtain ⟨⟨seen,reached,_⟩,inside,_,item,_⟩ := recorded
  cases kept with
  | @ofVariable var isVar kept =>
    obtain rfl := SemindexItem.symbol.inj item
    obtain ⟨⟨named,parameter⟩,_⟩ := skipsVariable_including.mp kept
    have within : v.ast.sm.inScope v.scope (v.ast.decl d).location = true := inside
    refine ⟨_,_,_,.ofVariable (reaches_visited reached) node isVar (by simp [Visitor.records,named,parameter,within]),?_⟩
    rw [← current_var node isVar,← current_name]
    rfl
  | @function f seen reached isFunction unskipped first =>
    obtain rfl := SemindexItem.symbol.inj item
    obtain ⟨before,after,order,rfl⟩ := reached
    refine ⟨_,_,_,.function order node isFunction unskipped (fun site earlier found => first ?_) inside,?_⟩
    · exact (collected_functionSymbols before Seen.empty).mpr (.inr ⟨site,earlier,functionAt_including.mpr found⟩)
    · rw [Visitor.summary,← (flagged_value flagged).2]
      rfl
  | enumConstant isConstant =>
    obtain rfl := SemindexItem.symbol.inj item
    exact ⟨_,_,_,.enumConstant (reaches_visited reached) node isConstant inside,rfl⟩

theorem records_kept {var : VarDecl} (recorded : v.records d var = true) :
    (v.ast.getName d ≠ [] ∧ v.isNonDefinitionParameter d var = false) ∧
      v.ast.sm.inScope v.scope (v.ast.decl d).location = true := by
  simpa [Visitor.records] using recorded

theorem variable_symbolAt {var : VarDecl} (visited : (part,around) ∈ unit.visits []) (node : part.node = .decl d)
    (isVar : (v.ast.decl d).declClass = .var var) (recorded : v.records d var = true) : ∃ s,
      v.SymbolAt unit true part around d (v.variableSymbol (v.current (part::around)) d var) s ∧
        s.summary = v.summary d (v.enclosingName around ≠ []) (v.enclosingName around) (v.ast.decl d).location := by
  obtain ⟨named,inside⟩ := records_kept recorded
  obtain ⟨seen,reached⟩ := @visited_reaches (v.including true) _ _ _ visited
  refine ⟨_,⟨⟨seen,reached,?_⟩,inside,rfl,rfl,?_⟩,?_⟩
  · have shown := skipsVariable_including.mpr (⟨named,.inl rfl⟩ : _ ∧ (true = true ∨
      (v.current (part::around)).name = []))
    have isVar' : ((v.including true).ast.decl d).declClass = .var var := isVar
    rw [node]
    simp only [Visitor.visit,Visitor.visitDecl,isVar',Visitor.visitVarDecl,shown,Bool.false_eq_true,if_false]
    exact List.mem_append_right _ (List.mem_append_right _ List.mem_cons_self)
  · simp [Ast.symbolKindForDecl,isVar]
  · rw [← current_var node isVar,← current_name]
    rfl

theorem declaredAt_symbolAt (flagged : v.Flagged d) (declared : v.DeclaredAt unit d flag context token) :
    ∃ part around e s, v.SymbolAt unit true part around d e s ∧ s.summary = v.summary d flag context token := by
  cases declared with
  | @ofVariable part around d var visited node isVar recorded =>
    obtain ⟨s,recorded,summary⟩ := variable_symbolAt visited node isVar recorded
    exact ⟨part,around,_,s,recorded,summary⟩
  | @function part around before after d f order node isFunction recorded first inside =>
    refine ⟨part,around,v.functionSymbol d f,_,⟨⟨_,⟨before,after,order,rfl⟩,?_⟩,inside,rfl,rfl,?_⟩,?_⟩
    · have fresh : (v.ast.decl d).canonical ∉
          (Forest.collect (v.including true).step before Seen.empty).2.functionSymbols := by
        intro listed
        rcases (collected_functionSymbols before Seen.empty).mp listed with none | ⟨site,earlier,found⟩
        · cases none
        · exact first site earlier (functionAt_including.mp found)
      have isFunction' : ((v.including true).ast.decl d).declClass = .function f := isFunction
      have recorded' : (v.including true).skipsFunction d f = false := recorded
      have fresh' : ((v.including true).ast.decl d).canonical ∉
          (Forest.collect (v.including true).step before Seen.empty).2.functionSymbols := fresh
      rw [node]
      simp only [Visitor.visit,Visitor.visitDecl,isFunction',Visitor.visitFunctionDecl,recorded',List.contains_eq_mem,
        fresh',decide_false,Bool.or_false,Bool.false_eq_true,if_false]
      exact List.mem_append_right _ List.mem_cons_self
    · simp [Ast.symbolKindForDecl,isFunction]
    · rw [Visitor.summary,← (flagged_value flagged).2]
      rfl
  | @enumConstant part around d type visited node isConstant inside =>
    obtain ⟨seen,reached⟩ := @visited_reaches (v.including true) _ _ _ visited
    refine ⟨part,around,v.enumConstantSymbol d type,_,⟨⟨seen,reached,?_⟩,inside,rfl,rfl,?_⟩,rfl⟩
    · have isConstant' : ((v.including true).ast.decl d).declClass = .enumConstant type := isConstant
      rw [node]
      simp only [Visitor.visit,Visitor.visitDecl,isConstant']
      exact List.mem_singleton.mpr rfl
    · simp [Ast.symbolKindForDecl,isConstant]

end Recorded

section Uses
variable (v : Visitor) (current : CurrentFunction) (part : Part) (around : List Part)

-- the use of a callee that is no lambda
def Visitor.directCall (callee : DeclId) (loc : SourceLocation) : Emission :=
  let info := v.ast.valueInfo v.details callee
  let usr := v.ast.functionUSR callee
  ⟨.decl callee,loc,.use
    { kind := .call, symbolKind := .function, mode := modeReadPointer, name := info.name, owner := info.owner,
      type := info.type, usr, context := current.name, contextUsr := current.usr, usrId := v.usrId usr,
      contextUsrId := current.usrId, loc := v.ast.sm.location loc, isLocal := false },v.ast.sm.inScope v.scope loc⟩

/-- What the visit of a part uses of the declaration. -/
inductive Visitor.Uses : DeclId → Emission → Prop
  | reference {d : DeclId} {loc : SourceLocation} {isFunctionType : Bool} (kind : UseKind)
      (node : part.node = .declRef d loc isFunctionType)
      (counted : (v.ast.isFunction d && isDirectCallCallee part.slot around) = false)
      (classified : kind = classifyUse part.slot around ∨
        (kind = .call ∧ v.ast.isFunction d = false ∧ isCallCallee part.slot around = true)) :
      Uses d (v.addValueUse (.decl d) d kind (accessModeForUse kind isFunctionType part.slot around)
        (v.current (part::around)).name loc (v.referenceLocal (v.current (part::around)) d))
  | initialized {d : DeclId} {var : VarDecl} (node : part.node = .decl d) (isVar : (v.ast.decl d).declClass = .var var)
      (named : v.ast.getName d ≠ [] ∧ v.isNonDefinitionParameter d var = false) (initialized : var.hasInit = true) :
      Uses d (v.variableWrite (v.current (part::around)) d var)
  | member {d : DeclId} {arrow : Bool} {base : MemberBase} {loc : SourceLocation} {isFunctionType : Bool}
      (node : part.node = .member d arrow base loc isFunctionType) :
      Uses d (v.addValueUse (.member d base) d (classifyUse part.slot around)
        (accessModeForUse (classifyUse part.slot around) isFunctionType part.slot around)
        (v.current (part::around)).name loc false)
  | called {d : DeclId} {loc : SourceLocation} (call : v.CallsAt part.node d loc) (valid : loc ≠ 0)
      (isFunction : v.ast.isFunction d = true) : Uses d (v.directCall (v.current (part::around)) d loc)
  | aliased {d target : DeclId} {attr : AliasAttr} (node : part.node = .decl d)
      (declared : v.isVar d = true ∨ v.ast.isFunction d = true) (attached : (v.ast.decl d).aliasAttr = some attr)
      (found : v.aliasTarget d attr = some target) :
      Uses target (v.addValueUse (.decl target) target .addr (modeReadAddress ||| modeWriteAddress) []
        (v.aliasLocation attr) false)

variable {v current part around} {unit : Forest Part} {includeLocal : Bool} {d : DeclId} {e : Emission}
  {u : SemindexUse} {flag : Bool} {context : Text} {token : SourceLocation}

theorem functionCall_cases {callee : DeclId} {loc : SourceLocation} (member : e ∈ v.addFunctionCall current callee loc)
    (item : e.item = .use u) : loc ≠ 0 ∧ (e = v.directCall current callee loc ∨ u.symbolKind = .lambda) := by
  rw [Visitor.addFunctionCall] at member
  split at member
  · cases member
  · rename_i valid
    refine ⟨valid,?_⟩
    dsimp only at member
    split at member
    · rw [List.mem_singleton.mp member] at item
      obtain rfl := SemindexItem.use.inj item
      exact .inr rfl
    · exact .inl (List.mem_singleton.mp member)

theorem directCall_offered {callee : DeclId} {loc : SourceLocation} (valid : loc ≠ 0)
    (plain : v.ast.isMethod callee = false) :
    v.directCall current callee loc ∈ v.addFunctionCall current callee loc := by
  rw [Visitor.addFunctionCall,if_neg valid]
  simp only [plain,Bool.false_eq_true,if_false]
  exact List.mem_singleton.mpr rfl

theorem typeUse_kind {seen : Seen} {r : DeclId} {kind : SymbolKind} {loc : SourceLocation} {type : Text}
    (member : e ∈ (v.addTypeUse current seen r kind loc type).1) (item : e.item = .use u) : u.symbolKind = kind := by
  rw [Visitor.addTypeUse] at member
  split_ifs at member
  · cases member
  · cases member
  · cases member
  · cases member
  · rw [List.mem_singleton.mp member] at item
    obtain rfl := SemindexItem.use.inj item
    rfl

/-- What was seen of the fields of anonymous records are indirect fields. -/
theorem reaches_indirect {seen : Seen} (reached : v.Reaches unit part around seen) {field indirect : DeclId}
    (listed : (field,indirect) ∈ seen.indirectFields) :
    ∃ f, (v.ast.decl indirect).declClass = .indirectField f ∧ f.anonField = field := by
  obtain ⟨before,after,_,rfl⟩ := reached
  rw [collected_indirectFields] at listed
  rcases List.mem_append.mp listed with none | found
  · cases none
  · obtain ⟨site,_,found⟩ := List.mem_flatMap.mp found
    unfold Visitor.indirectAt at found
    split at found
    · split at found
      · split at found
        · cases found
        · exact indirect_listed found
      · cases found
    · cases found

theorem flagged_isField (flagged : v.Flagged d) : v.ast.isField d = false := by
  rcases flagged_cases flagged with ⟨_,isClass⟩ | ⟨_,isClass,_⟩ | ⟨_,isClass⟩ <;> simp [Ast.isField,isClass]

theorem flagged_isMethod (flagged : v.Flagged d) : v.ast.isMethod d = false := by
  rcases flagged_cases flagged with ⟨_,isClass⟩ | ⟨f,isClass,plain⟩ | ⟨_,isClass⟩
  · simp [Ast.isMethod,Ast.function?,isClass]
  · simp [Ast.isMethod,Ast.function?,isClass,plain,FunctionClass.isMethod]
  · simp [Ast.isMethod,Ast.function?,isClass]

theorem call_uses {callee : DeclId} {loc : SourceLocation} (flagged : v.Flagged d)
    (call : v.CallsAt part.node callee loc) (member : e ∈ v.addFunctionCall (v.current (part::around)) callee loc)
    (reference : e.reference.value? = some d) (item : e.item = .use u) (kind : u.symbolKind = v.ast.symbolKindForDecl d) :
    v.Uses part around d e ∧ u.isLocal = false := by
  obtain ⟨valid,rfl | lambda⟩ := functionCall_cases member item
  · obtain rfl := Option.some.inj reference
    obtain rfl := SemindexItem.use.inj item
    refine ⟨.called call valid ?_,rfl⟩
    rcases flagged_cases flagged with ⟨_,isClass⟩ | ⟨f,isClass,_⟩ | ⟨_,isClass⟩
    · simp [Ast.symbolKindForDecl,isClass] at kind
    · simp [Ast.isFunction,Ast.function?,isClass]
    · simp [Ast.symbolKindForDecl,isClass] at kind
  · rw [lambda] at kind
    rcases flagged_kind flagged with of | of | of <;> rw [of] at kind <;> cases kind

/-- The uses of the index are those of the parts visited, without the local ones if these are left out. -/
theorem useOf_uses (flagged : v.Flagged d) (used : v.UseOf unit includeLocal d e u) :
    ∃ part around, (part,around) ∈ unit.visits [] ∧ v.Uses part around d e ∧
      (includeLocal = true ∨ u.isLocal = false) := by
  obtain ⟨offered,_,reference,item,kind⟩ := used
  obtain ⟨part,around,seen,reached,member⟩ := mem_traverseDecl.mp offered
  refine ⟨part,around,reaches_visited reached,?_⟩
  have types {kind' : SymbolKind} (same : u.symbolKind = kind') (other : kind' = .typedef ∨ kind' = .enum ∨
      ∃ r, kind' = v.ast.recordKindForDecl r) : False := by
    rw [same] at kind
    rcases flagged_kind flagged with of | of | of <;> rw [of] at kind <;> subst kind <;>
      rcases other with other | other | ⟨r,other⟩
    all_goals
      first
      | cases other
      | rcases @recordKind_cases v r with is | is | is | is <;> rw [is] at other <;> cases other
  have mentions := visit_use member item
  generalize same : part.node = node at mentions
  cases mentions with
  | aliasUse aliased member =>
    rw [Visitor.addAliasUse] at member
    split at member
    · cases member
    · rename_i attr attached
      split at member
      · cases member
      · rename_i target found
        rw [List.mem_singleton.mp member] at reference item ⊢
        obtain rfl := Option.some.inj reference
        obtain rfl := SemindexItem.use.inj item
        exact ⟨.aliased same aliased attached found,.inr rfl⟩
  | cleanup isVar member =>
    rw [Visitor.addCleanupCall] at member
    split at member
    · cases member
    · rename_i cleanup attached
      obtain ⟨uses,shared⟩ := @call_uses v part around d e u _ _ flagged (same ▸ .cleanup isVar attached) member
        reference item kind
      exact ⟨uses,.inr shared⟩
  | variableWrite isVar recorded initialized =>
    obtain rfl := Option.some.inj reference
    obtain rfl := SemindexItem.use.inj item
    obtain ⟨named,shown⟩ := skipsVariable_including.mp recorded
    refine ⟨.initialized same isVar named initialized,?_⟩
    rcases shown with included | outside
    · exact .inl included
    · exact .inr (decide_eq_false (not_not.mpr outside))
  | @reference d' loc isFunctionType kind' recorded classified =>
    obtain rfl := Option.some.inj reference
    obtain rfl := SemindexItem.use.inj item
    obtain ⟨shown,counted⟩ := Bool.or_eq_false_iff.mp recorded
    refine ⟨.reference kind' same counted classified,?_⟩
    rcases Bool.and_eq_false_iff.mp shown with outside | included
    · exact .inr outside
    · have shown : (!includeLocal) = false := included
      exact .inl (by simpa using shown)
  | @member field arrow base loc isFunctionType named =>
    obtain rfl := Option.some.inj reference
    obtain rfl := SemindexItem.use.inj item
    have own : (v.including includeLocal).usedMember seen field base = field := by
      have other : (v.including includeLocal).ast.isField field = false := flagged_isField flagged
      simp [Visitor.usedMember,other]
    rw [own]
    exact ⟨.member same,.inr rfl⟩
  | designated listed isField named =>
    obtain rfl := Option.some.inj reference
    have field := (Option.filter_eq_some_iff.mp isField).2
    exact absurd field (by simp [Visitor.including,flagged_isField flagged])
  | promoted listed isField initialized member =>
    obtain ⟨indirect,found,rfl⟩ := List.mem_map.mp member
    obtain ⟨entry,seenEntry,rfl⟩ := List.mem_map.mp (List.mem_filter.mp found).1
    obtain rfl := Option.some.inj reference
    obtain ⟨f,isIndirect,_⟩ := reaches_indirect reached (List.mem_filter.mp seenEntry).1
    have classes := flagged_cases flagged
    change (v.ast.decl _).declClass = _ at isIndirect
    simp [isIndirect] at classes
  | call member =>
    obtain ⟨uses,shared⟩ := @call_uses v part around d e u _ _ flagged (same ▸ .call) member reference item kind
    exact ⟨uses,.inr shared⟩
  | construct member =>
    obtain ⟨uses,shared⟩ := @call_uses v part around d e u _ _ flagged (same ▸ .construct) member reference item kind
    exact ⟨uses,.inr shared⟩
  | newType member => exact (types (typeUse_kind member item) (.inr (.inr ⟨_,rfl⟩))).elim
  | deleteType member => exact (types (typeUse_kind member item) (.inr (.inr ⟨_,rfl⟩))).elim
  | typedefUse member => exact (types (typeUse_kind member item) (.inl rfl)).elim
  | recordUse named member => exact (types (typeUse_kind member item) (.inr (.inr ⟨_,rfl⟩))).elim
  | enumUse named member => exact (types (typeUse_kind member item) (.inr (.inl rfl))).elim

theorem uses_item (uses : v.Uses part around d e) (flagged : v.Flagged d) : ∃ u, e.item = .use u ∧
    e.reference.value? = some d ∧ u.symbolKind = v.ast.symbolKindForDecl d := by
  have primary := (flagged_value flagged).1
  cases uses with
  | reference | member | aliased =>
    refine ⟨_,rfl,rfl,?_⟩
    simp [Ast.valueInfo,primary]
  | initialized node isVar named initialized => exact ⟨_,rfl,rfl,by simp [Ast.symbolKindForDecl,isVar]⟩
  | called call valid isFunction =>
    refine ⟨_,rfl,rfl,?_⟩
    obtain ⟨f,known⟩ := Option.isSome_iff_exists.mp isFunction
    simp [Ast.symbolKindForDecl,function_class known]

/-- A part that is visited puts its uses into the index, the local ones if these are included. -/
theorem uses_useOf (flagged : v.Flagged d) (visited : (part,around) ∈ unit.visits []) (uses : v.Uses part around d e)
    (inside : e.inScope = true) (item : e.item = .use u) (shown : includeLocal = true ∨ u.isLocal = false) :
    v.UseOf unit includeLocal d e u := by
  obtain ⟨u',item',reference,kind⟩ := uses_item uses flagged
  obtain rfl := SemindexItem.use.inj (item'.symm.trans item)
  refine ⟨?_,inside,reference,item,kind⟩
  obtain ⟨seen,reached⟩ := @visited_reaches (v.including includeLocal) _ _ _ visited
  refine mem_traverseDecl.mpr ⟨part,around,seen,reached,?_⟩
  cases uses with
  | @reference _ loc isFunctionType kind' node counted classified =>
    obtain rfl := SemindexItem.use.inj item
    have recorded : (v.including includeLocal).skipsReference (v.current (part::around)) part.slot around d = false := by
      refine Bool.or_eq_false_iff.mpr ⟨?_,counted⟩
      rcases shown with rfl | outside
      · exact Bool.and_false _
      · exact Bool.and_eq_false_iff.mpr (.inl outside)
    rw [node]
    simp only [Visitor.visit,Visitor.visitDeclRefExpr,including_current,recorded,Bool.false_eq_true,if_false]
    rcases classified with rfl | ⟨rfl,pointer,callee⟩
    · exact List.mem_cons_self
    · refine List.mem_cons_of_mem _ ?_
      rw [if_pos (by
        change (!v.ast.isFunction d && isCallCallee part.slot around) = true
        simp [pointer,callee])]
      exact List.mem_singleton.mpr rfl
  | @initialized _ var node isVar named initialized =>
    obtain rfl := SemindexItem.use.inj item
    have recorded : (v.including includeLocal).skipsVariable (v.current (part::around)) d var = false :=
      skipsVariable_including.mpr ⟨named,shown.imp id (fun outside => not_not.mp (of_decide_eq_false outside))⟩
    have isVar' : ((v.including includeLocal).ast.decl d).declClass = .var var := isVar
    rw [node]
    simp only [Visitor.visit,Visitor.visitDecl,isVar',Visitor.visitVarDecl,including_current,recorded,
      Bool.false_eq_true,if_false,initialized,if_true]
    exact List.mem_append_right _ (List.mem_append_right _ (List.mem_cons_of_mem _ (List.mem_singleton.mpr rfl)))
  | @member _ arrow base loc isFunctionType node =>
    have other : (v.including includeLocal).ast.isField d = false := flagged_isField flagged
    rw [node]
    simp only [Visitor.visit,Visitor.visitMemberExpr,Visitor.usedMember,other,Bool.false_and,Bool.false_eq_true,if_false]
    exact List.mem_singleton.mpr rfl
  | @called _ loc call valid isFunction =>
    have offered := @directCall_offered (v.including includeLocal) (v.current (part::around)) d loc valid
      (flagged_isMethod flagged)
    generalize part.node = node at call
    cases call with
    | call => exact offered
    | construct => exact offered
    | @cleanup o var cleanup isVar attached =>
      have isVar' : ((v.including includeLocal).ast.decl o).declClass = .var var := isVar
      simp only [Visitor.visit,Visitor.visitDecl,isVar',Visitor.visitVarDecl,Visitor.addCleanupCall,attached]
      exact List.mem_append_left _ (List.mem_append_right _ offered)
  | @aliased o target attr node declared attached found =>
    have offered : v.addValueUse (.decl d) d .addr (modeReadAddress ||| modeWriteAddress) [] (v.aliasLocation attr) false ∈
        (v.including includeLocal).addAliasUse o := by
      have attached' : ((v.including includeLocal).ast.decl o).aliasAttr = some attr := attached
      have found' : (v.including includeLocal).aliasTarget o attr = some d := found
      simp only [Visitor.addAliasUse,attached',found']
      exact List.mem_singleton.mpr rfl
    rw [node]
    rcases declared with isVar | isFunction
    · unfold Visitor.isVar at isVar
      split at isVar
      · rename_i var isClass
        have isVar' : ((v.including includeLocal).ast.decl o).declClass = .var var := isClass
        simp only [Visitor.visit,Visitor.visitDecl,isVar',Visitor.visitVarDecl]
        exact List.mem_append_left _ (List.mem_append_left _ offered)
      · cases isVar
    · obtain ⟨f,known⟩ := Option.isSome_iff_exists.mp isFunction
      have isFunction' : ((v.including includeLocal).ast.decl o).declClass = .function f := function_class known
      simp only [Visitor.visit,Visitor.visitDecl,isFunction',Visitor.visitFunctionDecl]
      split
      · exact offered
      · exact List.mem_append_left _ offered

theorem callsAt_enclosing {loc : SourceLocation} (call : v.CallsAt part.node d loc) :
    v.enclosingName (part::around) = v.enclosingName around := by
  apply enclosingName_cons
  unfold Visitor.plainFunction?
  generalize part.node = node at call
  cases call with
  | call => rfl
  | construct => rfl
  | cleanup isVar attached => simp [Visitor.isPlain,Ast.function?,isVar]

theorem uses_usedAt (flagged : v.Flagged d) (visited : (part,around) ∈ unit.visits []) (uses : v.Uses part around d e)
    (inside : e.inScope = true) (item : e.item = .use u) :
    ∃ flag context token, v.UsedAt unit d flag context token ∧ u.summary = v.summary d flag context token := by
  obtain ⟨primary,owner⟩ := flagged_value flagged
  cases uses with
  | @reference _ loc isFunctionType kind node counted classified =>
    obtain rfl := SemindexItem.use.inj item
    refine ⟨_,_,_,.reference visited node counted inside,?_⟩
    rw [← enclosingName_cons (by simp [Visitor.plainFunction?,node] : v.plainFunction? part = none),← current_name]
    simp [SemindexUse.summary,Visitor.summary,Ast.valueInfo,primary,owner,Visitor.referenceLocal]
  | @initialized _ var node isVar named initialized =>
    obtain rfl := SemindexItem.use.inj item
    have within : v.ast.sm.inScope v.scope (v.ast.decl d).location = true := inside
    refine ⟨_,_,_,.initialized visited node isVar (by simp [Visitor.records,named,within]) initialized,?_⟩
    rw [← current_var node isVar,← current_name]
    rfl
  | @member _ arrow base loc isFunctionType node =>
    obtain rfl := SemindexItem.use.inj item
    refine ⟨_,_,_,.member visited node inside,?_⟩
    rw [← enclosingName_cons (by simp [Visitor.plainFunction?,node] : v.plainFunction? part = none),← current_name]
    simp [SemindexUse.summary,Visitor.summary,Ast.valueInfo,primary,owner]
  | called call valid isFunction =>
    obtain rfl := SemindexItem.use.inj item
    refine ⟨_,_,_,.called visited call valid inside isFunction,?_⟩
    rw [← callsAt_enclosing call,← current_name]
    simp [SemindexUse.summary,Visitor.summary,Ast.valueInfo,primary,owner]
  | aliased node declared attached found =>
    obtain rfl := SemindexItem.use.inj item
    refine ⟨_,_,_,.aliased visited node declared attached found inside,?_⟩
    simp [SemindexUse.summary,Visitor.summary,Ast.valueInfo,primary,owner]

theorem usedAt_uses (flagged : v.Flagged d) (used : v.UsedAt unit d flag context token) :
    ∃ part around e u, (part,around) ∈ unit.visits [] ∧ v.Uses part around d e ∧ e.inScope = true ∧
      e.item = .use u ∧ u.summary = v.summary d flag context token := by
  obtain ⟨primary,owner⟩ := flagged_value flagged
  cases used with
  | @reference part around _ loc isFunctionType visited node counted inside =>
    refine ⟨part,around,_,_,visited,.reference _ node counted (.inl rfl),inside,rfl,?_⟩
    rw [← enclosingName_cons (by simp [Visitor.plainFunction?,node] : v.plainFunction? part = none),← current_name]
    simp [SemindexUse.summary,Visitor.summary,Ast.valueInfo,primary,owner,Visitor.referenceLocal]
  | @initialized part around _ var visited node isVar recorded initialized =>
    obtain ⟨named,inside⟩ := records_kept recorded
    refine ⟨part,around,_,_,visited,.initialized node isVar named initialized,inside,rfl,?_⟩
    rw [← current_var node isVar,← current_name]
    rfl
  | @member part around _ arrow base loc isFunctionType visited node inside =>
    refine ⟨part,around,_,_,visited,.member node,inside,rfl,?_⟩
    rw [← enclosingName_cons (by simp [Visitor.plainFunction?,node] : v.plainFunction? part = none),← current_name]
    simp [SemindexUse.summary,Visitor.summary,Ast.valueInfo,primary,owner]
  | @called part around _ loc visited call valid inside isFunction =>
    refine ⟨part,around,_,_,visited,.called call valid isFunction,inside,rfl,?_⟩
    rw [← callsAt_enclosing call,← current_name]
    simp [SemindexUse.summary,Visitor.summary,Ast.valueInfo,primary,owner]
  | @aliased part around o target attr visited node declared attached found inside =>
    refine ⟨part,around,_,_,visited,.aliased node declared attached found,inside,rfl,?_⟩
    simp [SemindexUse.summary,Visitor.summary,Ast.valueInfo,primary,owner]

end Uses

section Flags
variable (v : Visitor) (unit : Forest Part) (variant : Text) (stored : Text → Text) (documentPaths : Text → List Text)

-- the row of an item, under the path of its file
def SemindexItem.row (hash : Text → Id) (item : SemindexItem) : Option RecordRow :=
  (item.columns hash).map (fun columns => ⟨variant,stored item.file,columns.1,columns.2⟩)

/-- The local flag is one of the symbol: the uses of an entity have it as the symbol does, a variable's symbol
has it inside definitions, an index without local items has every use of the file scope and no variable of a
definition, and the language server gets from each use to the symbol. -/
structure Visitor.LocalFlag : Prop where
  same : ∀ {part around d e s d' e' u}, v.SymbolAt unit true part around d e s → v.UseOf unit true d' e' u →
    v.SameEntity d d' → u.isLocal = s.isLocal
  inside : ∀ {part around d e s}, v.SymbolAt unit true part around d e s → v.isVar d = true →
    (s.isLocal = true ↔ v.inDefinition around = true)
  kept : ∀ {d e u}, v.UseOf unit true d e u → v.Flagged d → v.ast.fileScope d = true → v.UseOf unit false d e u
  dropped : ∀ {part around d e s}, v.SymbolAt unit true part around d e s → v.isVar d = true →
    v.inDefinition around = true → (∀ e s, ¬ v.SymbolAt unit false part around d e s) ∧
      ∀ d' e' u, v.SameEntity d d' → ¬ v.UseOf unit false d' e' u
  found : ∀ {part around d e s d' e' u}, v.SymbolAt unit true part around d e s → v.UseOf unit true d' e' u →
    v.SameEntity d d' → ∀ db row row' filter, row ∈ joinedRecords db → row' ∈ joinedRecords db →
      e.item.row variant stored v.hash = some row → e'.item.row variant stored v.hash = some row' →
        filter.admits row.key = true → Finds db (documentPaths row'.path) (dbRecord row') filter row

/-- Where the source declares and uses things in the places the visitor can tell apart: every variable of a
definition is in a plain function, nothing of the file scope is named without external linkage inside one, and a
use of a variable of a function names it there, by a name that matches itself. -/
structure Visitor.FlagsAgree : Prop where
  inside : ∀ {part around d var}, (part,around) ∈ unit.visits [] → part.node = .decl d →
    (v.ast.decl d).declClass = .var var → v.records d var = true →
      (v.enclosingName around ≠ [] ↔ v.inDefinition around = true)
  shared : ∀ {d flag context token}, v.UsedAt unit d flag context token → v.Flagged d → v.ast.fileScope d = true →
    flag = false
  agree : ∀ {d flag context token d' flag' context' token'}, v.DeclaredAt unit d flag context token →
    v.UsedAt unit d' flag' context' token' → v.SameEntity d d' → flag = flag' ∧
      glob (v.ast.getName d') (v.ast.getName d) = true ∧ glob variant variant = true ∧
        (flag' = true → context = context' ∧ ∃ path ∈ documentPaths (stored (v.ast.sm.location token').file),
          glob path (stored (v.ast.sm.location token).file) = true)

variable {v unit variant stored documentPaths}

/-- A use finds a symbol in every database just where the names match and the flags, kinds and places agree. -/
theorem rows_found_iff {hash : Text → Id} {s : SemindexSymbol} {u : SemindexUse} :
    (∀ db row row' filter, row ∈ joinedRecords db → row' ∈ joinedRecords db →
      (SemindexItem.symbol s).row variant stored hash = some row →
      (SemindexItem.use u).row variant stored hash = some row' → filter.admits row.key = true →
        Finds db (documentPaths row'.path) (dbRecord row') filter row) ↔
    glob (qualifiedName u.owner u.name) (qualifiedName s.owner s.name) = true ∧ glob variant variant = true ∧
      s.kind.code = u.symbolKind.code ∧ s.isLocal = u.isLocal ∧ (u.isLocal = true → s.context = u.context ∧
        ∃ path ∈ documentPaths (stored u.loc.file), glob path (stored s.loc.file) = true) := by
  constructor
  · intro found
    have both := @joinedRecords_holdingBoth
      ⟨variant,stored s.loc.file,⟨qualifiedName s.owner s.name,0,s.definition.toNat,s.kind.code,0,s.loc.line,s.loc.column⟩,
        ⟨s.context,optionalId s.usr (usrHash hash s.usr),none,s.isLocal⟩⟩
      ⟨variant,stored u.loc.file,⟨qualifiedName u.owner u.name,1,u.kind.code,u.symbolKind.code,u.mode,u.loc.line,
        u.loc.column⟩,⟨u.context,optionalId u.usr (usrHash hash u.usr),
          optionalId u.contextUsr (usrHash hash u.contextUsr),u.isLocal⟩⟩ (by simp)
    exact (finds_iff both.1 rfl).mp (found _ _ _ .symbol both.1 both.2 rfl rfl rfl)
  · intro conditions db row row' filter member _ same same' admitted
    obtain rfl := Option.some.inj same
    obtain rfl := Option.some.inj same'
    exact (finds_iff member admitted).mpr conditions

-- the symbol of the index and the place that declares it
theorem recorded_variable {part : Part} {around : List Part} {d : DeclId} {e : Emission} {s : SemindexSymbol}
    {includeLocal : Bool} (recorded : v.SymbolAt unit includeLocal part around d e s) (isVar : v.isVar d = true) :
    ∃ var, (part,around) ∈ unit.visits [] ∧ part.node = .decl d ∧ (v.ast.decl d).declClass = .var var ∧
      v.records d var = true ∧ s.isLocal = decide (v.enclosingName around ≠ []) ∧
        (includeLocal = true ∨ v.enclosingName around = []) := by
  obtain ⟨node,kept⟩ := symbolAt_recorded (.inl isVar) recorded
  obtain ⟨⟨seen,reached,_⟩,inside,_,item,_⟩ := recorded
  unfold Visitor.isVar at isVar
  split at isVar
  · rename_i var isClass
    cases kept with
    | @ofVariable var' isVar' kept =>
      obtain rfl := SemindexItem.symbol.inj item
      obtain ⟨⟨named,parameter⟩,shown⟩ := skipsVariable_including.mp kept
      have within : v.ast.sm.inScope v.scope (v.ast.decl d).location = true := inside
      rw [current_name,current_var node isVar'] at shown
      refine ⟨_,reaches_visited reached,node,isVar',by simp [Visitor.records,named,parameter,within],?_,shown⟩
      rw [← current_var node isVar',← current_name]
    | function reached isFunction =>
      rw [isClass] at isFunction
      cases isFunction
    | enumConstant isConstant =>
      rw [isClass] at isConstant
      cases isConstant
  · cases isVar

theorem useOf_usedAt {d : DeclId} {e : Emission} {u : SemindexUse} {includeLocal : Bool} (flagged : v.Flagged d)
    (used : v.UseOf unit includeLocal d e u) : ∃ flag context token, v.UsedAt unit d flag context token ∧
      u.summary = v.summary d flag context token ∧ (includeLocal = true ∨ flag = false) := by
  obtain ⟨part,around,visited,uses,shown⟩ := useOf_uses flagged used
  obtain ⟨flag,context,token,place,summary⟩ := uses_usedAt flagged visited uses used.inside used.item
  have same : u.isLocal = flag := congrArg Summary.isLocal summary
  exact ⟨flag,context,token,place,summary,same ▸ shown⟩

theorem usedAt_useOf {d : DeclId} {flag : Bool} {context : Text} {token : SourceLocation} (flagged : v.Flagged d)
    (used : v.UsedAt unit d flag context token) :
    ∃ e u, v.UseOf unit true d e u ∧ u.summary = v.summary d flag context token := by
  obtain ⟨part,around,e,u,visited,uses,inside,item,summary⟩ := usedAt_uses flagged used
  exact ⟨e,u,uses_useOf flagged visited uses inside item (.inl rfl),summary⟩

theorem localFlag_agrees (shared : v.LocalFlag unit variant stored documentPaths) :
    v.FlagsAgree unit variant stored documentPaths := by
  refine ⟨?_,?_,?_⟩
  · intro part around d var visited node isVar recorded
    obtain ⟨s,symbol,summary⟩ := variable_symbolAt visited node isVar recorded
    have flag : s.isLocal = decide (v.enclosingName around ≠ []) := congrArg Summary.isLocal summary
    rw [← shared.inside symbol (by simp [Visitor.isVar,isVar]),flag,decide_eq_true_eq]
  · intro d flag context token used flagged file
    obtain ⟨e,u,use,summary⟩ := usedAt_useOf flagged used
    obtain ⟨_,_,_,_,same,shown⟩ := useOf_usedAt flagged (shared.kept use flagged file)
    have flags : flag = _ := (congrArg Summary.isLocal summary).symm.trans (congrArg Summary.isLocal same)
    rcases shown with absurd | outside
    · cases absurd
    · exact flags.trans outside
  · intro d flag context token d' flag' context' token' declared used entity
    obtain ⟨part,around,e,s,symbol,summary⟩ := declaredAt_symbolAt entity.flagged.1 declared
    obtain ⟨e',u,use,summary'⟩ := usedAt_useOf entity.flagged.2 used
    have found := shared.found symbol use entity
    rw [symbol.item,use.item] at found
    obtain ⟨names,variants,_,flags,places⟩ := rows_found_iff.mp found
    obtain ⟨rfl,rfl,locs,name,owner⟩ := Summary.mk.inj summary
    obtain ⟨rfl,rfl,locs',name',owner'⟩ := Summary.mk.inj summary'
    rw [name,owner,name',owner'] at names
    rw [locs,locs'] at places
    exact ⟨flags,names,variants,places⟩

theorem flags_localFlag (agrees : v.FlagsAgree unit variant stored documentPaths) :
    v.LocalFlag unit variant stored documentPaths := by
  have pairs {part around d e s d' e' u} (symbol : v.SymbolAt unit true part around d e s)
      (use : v.UseOf unit true d' e' u) (entity : v.SameEntity d d') :
      s.isLocal = u.isLocal ∧ ∀ db row row' filter, row ∈ joinedRecords db → row' ∈ joinedRecords db →
        e.item.row variant stored v.hash = some row → e'.item.row variant stored v.hash = some row' →
          filter.admits row.key = true → Finds db (documentPaths row'.path) (dbRecord row') filter row := by
    obtain ⟨flag,context,token,declared,summary⟩ := symbolAt_declaredAt entity.flagged.1 symbol
    obtain ⟨flag',context',token',used,summary',_⟩ := useOf_usedAt entity.flagged.2 use
    obtain ⟨flags,names,variants,places⟩ := agrees.agree declared used entity
    obtain ⟨rfl,rfl,locs,name,owner⟩ := Summary.mk.inj summary
    obtain ⟨rfl,rfl,locs',name',owner'⟩ := Summary.mk.inj summary'
    refine ⟨flags,?_⟩
    rw [symbol.item,use.item]
    refine rows_found_iff.mpr ⟨?_,variants,?_,flags,?_⟩
    · rw [name,owner,name',owner']
      exact names
    · rw [symbol.kind,use.kind,entity.kind]
    · rw [locs,locs']
      exact places
  have inside {part around d e s} (symbol : v.SymbolAt unit true part around d e s) (isVar : v.isVar d = true) :
      s.isLocal = true ↔ v.inDefinition around = true := by
    obtain ⟨var,visited,node,isClass,recorded,flag,_⟩ := recorded_variable symbol isVar
    rw [flag,decide_eq_true_eq]
    exact agrees.inside visited node isClass recorded
  refine ⟨fun symbol use entity => (pairs symbol use entity).1.symm,inside,?_,?_,
    fun symbol use entity => (pairs symbol use entity).2⟩
  · intro d e u use flagged file
    obtain ⟨part,around,visited,uses,_⟩ := useOf_uses flagged use
    obtain ⟨flag,context,token,used,summary⟩ := uses_usedAt flagged visited uses use.inside use.item
    have flags : u.isLocal = flag := congrArg Summary.isLocal summary
    exact uses_useOf flagged visited uses use.inside use.item (.inr (flags.trans (agrees.shared used flagged file)))
  · intro part around d e s symbol isVar within
    constructor
    · intro e' s' dropped
      obtain ⟨var,visited,node,isClass,recorded,_,outside⟩ := recorded_variable dropped isVar
      rcases outside with absurd | outside
      · cases absurd
      · exact (agrees.inside visited node isClass recorded).mpr within outside
    · intro d' e' u entity dropped
      obtain ⟨flag,context,token,declared,summary⟩ := symbolAt_declaredAt entity.flagged.1 symbol
      obtain ⟨flag',context',token',used,_,outside⟩ := useOf_usedAt entity.flagged.2 dropped
      have flagged : s.isLocal = flag := congrArg Summary.isLocal summary
      have same := (agrees.agree declared used entity).1
      rw [← same,← flagged,(inside symbol isVar).mpr within] at outside
      simp at outside

/-- The local flag is one of the symbol just where the traversal state and the linkage agree on the places of
the source. -/
theorem local_flag_iff : v.LocalFlag unit variant stored documentPaths ↔
    v.FlagsAgree unit variant stored documentPaths := ⟨localFlag_agrees,flags_localFlag⟩

end Flags

section Samples

-- `static void f() {} void *g() { return (void *)f; } struct S { void m() { int x; } };`
def flagsDecls : List Decl := [
  { declClass := .other, name := [], canonical := 0, location := 0 },
  { declClass := .function (sampleFunction .plain true), name := "f".toList, usr := "c:a.cc@F@f#".toList,
    contexts := [0], canonical := 1, location := 13, linkage := .internal },
  { declClass := .function (sampleFunction .plain true), name := "g".toList, usr := "c:@F@g#".toList,
    contexts := [0], canonical := 2, location := 26, linkage := .external },
  { declClass := .record ⟨false,true,61,[4],some ⟨false,false,none,none⟩⟩, name := "S".toList, usr := "c:@S@S".toList,
    contexts := [0], canonical := 3, location := 59, linkage := .external },
  { declClass := .function (sampleFunction .method true), name := "m".toList, usr := "c:@S@S@F@m#".toList,
    contexts := [3,0], canonical := 4, location := 68, linkage := .external },
  { declClass := .var ⟨intType,none,false,false,none⟩, name := "x".toList, usr := "c:a.cc@73@S@S@F@m#@x".toList,
    contexts := [4,3,0], canonical := 5, location := 78 }]

def flags : Visitor where
  ast := Ast.ofDecls flagsDecls (SourceManager.ofText "a.cc".toList
    "static void f() {} void *g() { return (void *)f; } struct S { void m() { int x; } };".toList) (by decide)
  scope := .project
  details := true
  includeLocal := true
  hash := textHash

def flagsUnit : Forest Part :=
  .node ⟨.other,.decl 1⟩ .nil (.node ⟨.other,.decl 2⟩ (.node ⟨.other,.declRef 1 47 true⟩ .nil .nil)
    (.node ⟨.other,.decl 3⟩ (.node ⟨.other,.decl 4⟩ (.node ⟨.other,.decl 5⟩ .nil .nil) .nil) .nil))

/-- The use of the static function is local and its symbol is not, and neither is the variable of the method. -/
theorem static_function_flagged : (∃ e s, e ∈ flags.traverseDecl flagsUnit ∧ e.reference = .decl 1 ∧
      e.item = .symbol s ∧ s.isLocal = false) ∧
    (∃ e u, e ∈ flags.traverseDecl flagsUnit ∧ e.reference = .decl 1 ∧ e.item = .use u ∧ u.isLocal = true) ∧
    (∃ e s, e ∈ flags.traverseDecl flagsUnit ∧ e.reference = .decl 5 ∧ e.item = .symbol s ∧ s.isLocal = false) ∧
    ¬ flags.LocalFlag flagsUnit "general".toList id (fun path => [path]) := by
  refine ⟨⟨_,_,List.mem_of_getElem? (i := 0) rfl,rfl,rfl,rfl⟩,⟨_,_,List.mem_of_getElem? (i := 4) rfl,rfl,rfl,rfl⟩,
    ⟨_,_,List.mem_of_getElem? (i := 8) rfl,rfl,rfl,rfl⟩,?_⟩
  intro shared
  have used : flags.UsedAt flagsUnit 1 true "g".toList 47 :=
    @Visitor.UsedAt.reference flags flagsUnit ⟨.other,.declRef 1 47 true⟩ [⟨.other,.decl 2⟩] 1 47 true
      (List.mem_of_getElem? (i := 2) rfl) rfl rfl rfl
  exact absurd ((localFlag_agrees shared).shared used (.inr ⟨.inl rfl,rfl⟩) rfl) (by decide)

end Samples
end Semindex.Parser
