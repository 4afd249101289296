import Semindex.Parser.Visitor

/-! The visits of a translation unit: the function a node is visited in, and what
each kind of node offers to the index. -/
namespace Semindex.Parser
open Semindex.Graph

section Enclosing
variable (v : Visitor)

def Visitor.isPlain (d : DeclId) : Bool := (v.ast.function? d).any (fun f => f.functionClass = .plain)

def Visitor.plainFunction? (part : Part) : Option DeclId :=
  match part.node with
  | .decl d => if v.isPlain d then some d else none
  | _ => none

/-- The innermost plain function among these parts. -/
def Visitor.enclosing (around : List Part) : Option DeclId := around.findSome? v.plainFunction?

def Visitor.asCurrent (d : DeclId) : CurrentFunction :=
  let usr := if (v.ast.function? d).any FunctionDecl.hasBody then v.ast.functionUSR d else []
  ⟨v.ast.getName d,usr,v.usrId usr⟩

def Visitor.current (around : List Part) : CurrentFunction := Forest.held v.enter .none around

variable {v}

theorem enter_eq (part : Part) (current : CurrentFunction) :
    v.enter part current = ((v.plainFunction? part).map v.asCurrent).getD current := by
  unfold Visitor.enter Visitor.plainFunction? Visitor.isPlain Visitor.asCurrent
  cases part.node with
  | decl d =>
    cases found : v.ast.function? d with
    | none => simp [found]
    | some function =>
      by_cases plain : function.functionClass = .plain
      · simp [found,plain]
      · simp [found,plain]
  | _ => rfl

/-- The traversal state names the innermost plain function around. -/
theorem current_eq (around : List Part) :
    v.current around = ((v.enclosing around).map v.asCurrent).getD .none := by
  induction around with
  | nil => rfl
  | cons part around ih =>
    change v.enter part (v.current around) = _
    rw [enter_eq,ih]
    simp only [Visitor.enclosing,List.findSome?_cons]
    cases v.plainFunction? part <;> rfl

end Enclosing

section Run
variable (v : Visitor)

def Visitor.step (site : Part × List Part) (seen : Seen) : List Emission × Seen :=
  v.visit (v.current (site.1::site.2)) seen site.1.slot site.2 site.1.node

/-- The node is visited with what the visits before it left. -/
def Visitor.Reaches (unit : Forest Part) (part : Part) (around : List Part) (seen : Seen) : Prop :=
  ∃ before after, unit.visits [] = before ++ (part,around)::after ∧
    seen = (Forest.collect v.step before Seen.empty).2

variable {v} {unit : Forest Part} {part : Part} {around : List Part}

theorem traverseDecl_eq : v.traverseDecl unit = (Forest.collect v.step (unit.visits []) Seen.empty).1 := by
  have held := unit.traverse_eq v.enter v.visitPart CurrentFunction.none [] (Seen.empty,[])
  have folded := Forest.foldl_collect v.step (unit.visits []) Seen.empty []
  rw [List.nil_append] at folded
  exact (congrArg (fun s => s.2.2) held).trans (congrArg Prod.snd folded)

theorem mem_traverseDecl {e : Emission} : e ∈ v.traverseDecl unit ↔
    ∃ part around seen, v.Reaches unit part around seen ∧
      e ∈ (v.visit (v.current (part::around)) seen part.slot around part.node).1 := by
  rw [traverseDecl_eq,Forest.mem_collect]
  constructor
  · intro ⟨before,(part,around),after,same,found⟩
    exact ⟨part,around,_,⟨before,after,same,rfl⟩,found⟩
  · intro ⟨part,around,seen,⟨before,after,same,left⟩,found⟩
    exact ⟨before,(part,around),after,same,left ▸ found⟩

theorem reaches_visited {seen : Seen} (reached : v.Reaches unit part around seen) :
    (part,around) ∈ unit.visits [] := by
  obtain ⟨before,after,same,_⟩ := reached
  rw [same]
  exact List.mem_append_right _ List.mem_cons_self

theorem visited_reaches (visited : (part,around) ∈ unit.visits []) : ∃ seen, v.Reaches unit part around seen := by
  obtain ⟨before,after,same⟩ := List.append_of_mem visited
  exact ⟨_,before,after,same,rfl⟩

end Run

section Offers
variable (v : Visitor) (current : CurrentFunction) (seen : Seen) (slot : Slot) (around : List Part)

/-- The anonymous record a declaration names, if the visitor gets to it. -/
inductive Visitor.NamesRecord : DeclId → DeclId → Prop
  | ofVariable {d r : DeclId} {var : VarDecl} (isVar : (v.ast.decl d).declClass = .var var)
      (recorded : v.skipsVariable current d var = false) (named : v.variableRecord var = some r) : NamesRecord d r
  | ofTypedef {d r : DeclId} {underlying : QualType} (isTypedef : (v.ast.decl d).declClass = .typedef underlying)
      (recorded : v.includeLocal = true ∨ current.name = []) (named : v.typedefRecord underlying = some r) :
      NamesRecord d r

/-- The symbols and signatures a visit of the node adds. -/
inductive Visitor.Declares : Node → Emission → Prop
  | record {d r : DeclId} {e : Emission} (named : v.NamesRecord current d r)
      (offered : e ∈ v.addAnonymousRecordSymbols current r (v.ast.anonymousRecordName d)) : Declares (.decl d) e
  | variableSymbol {d : DeclId} {var : VarDecl} (isVar : (v.ast.decl d).declClass = .var var)
      (recorded : v.skipsVariable current d var = false) : Declares (.decl d) (v.variableSymbol current d var)
  | field {d : DeclId} {field : FieldDecl} (isField : (v.ast.decl d).declClass = .field field)
      (named : v.ast.isAnonymousRecord (v.ast.declContext d) = false)
      (primary : v.ast.isSpecialization (v.ast.declContext d) = false) : Declares (.decl d) (v.fieldSymbol d field)
  | typedef {d : DeclId} {underlying : QualType} (isTypedef : (v.ast.decl d).declClass = .typedef underlying)
      (recorded : v.includeLocal = true ∨ current.name = []) :
      Declares (.decl d) (v.typedefSymbol current d underlying)
  | recordSymbol {d : DeclId} {r : RecordDecl} (isRecord : (v.ast.decl d).declClass = .record r)
      (recorded : v.skipsRecord d r = false) :
      Declares (.decl d) (v.typeSymbol d (v.ast.recordKindForDecl d) (v.ast.qualifiedRecordName d))
  | indirect {d : DeclId} {r : RecordDecl} {field indirect : DeclId}
      (isRecord : (v.ast.decl d).declClass = .record r) (recorded : v.skipsRecord d r = false)
      (listed : (field,indirect) ∈ v.indirectMembers r) : Declares (.decl d) (v.addIndirectField indirect)
  | enum {d : DeclId} {e : Emission} {enum : EnumDecl} (isEnum : (v.ast.decl d).declClass = .enum enum)
      (offered : e ∈ v.visitEnumDecl d enum) : Declares (.decl d) e
  | enumConstant {d : DeclId} {type : QualType} (isConstant : (v.ast.decl d).declClass = .enumConstant type) :
      Declares (.decl d) (v.enumConstantSymbol d type)
  | function {d : DeclId} {f : FunctionDecl} (isFunction : (v.ast.decl d).declClass = .function f)
      (recorded : v.skipsFunction d f = false) (first : (v.ast.decl d).canonical ∉ seen.functionSymbols) :
      Declares (.decl d) (v.functionSymbol d f)
  | signature {d : DeclId} {f : FunctionDecl} (isFunction : (v.ast.decl d).declClass = .function f)
      (recorded : v.skipsFunction d f = false) (first : (v.ast.decl d).canonical ∉ seen.functionSymbols) :
      Declares (.decl d) (v.functionSignature d f)

/-- The uses a visit of the node adds. -/
inductive Visitor.Mentions : Node → Emission → Prop
  | aliasUse {d : DeclId} {e : Emission} (aliased : v.isVar d ∨ v.ast.isFunction d) (offered : e ∈ v.addAliasUse d) :
      Mentions (.decl d) e
  | cleanup {d : DeclId} {var : VarDecl} {e : Emission} (isVar : (v.ast.decl d).declClass = .var var)
      (offered : e ∈ v.addCleanupCall current var) : Mentions (.decl d) e
  | variableWrite {d : DeclId} {var : VarDecl} (isVar : (v.ast.decl d).declClass = .var var)
      (recorded : v.skipsVariable current d var = false) (initialized : var.hasInit) :
      Mentions (.decl d) (v.variableWrite current d var)
  | reference {d : DeclId} {loc : SourceLocation} {isFunctionType : Bool} (kind : UseKind)
      (recorded : v.skipsReference current slot around d = false)
      (classified : kind = classifyUse slot around ∨
        (kind = .call ∧ v.ast.isFunction d = false ∧ isCallCallee slot around = true)) :
      Mentions (.declRef d loc isFunctionType) (v.addValueUse (.decl d) d kind
        (accessModeForUse kind isFunctionType slot around) current.name loc (v.referenceLocal current d))
  | member {field : DeclId} {arrow : Bool} {base : MemberBase} {loc : SourceLocation} {isFunctionType : Bool}
      (named : v.ast.isField field = true → v.ast.getName field ≠ []) :
      Mentions (.member field arrow base loc isFunctionType)
        (v.addValueUse (.member field base) (v.usedMember seen field base) (classifyUse slot around)
          (accessModeForUse (classifyUse slot around) isFunctionType slot around) current.name loc false)
  | designated {designators : List Designator} {designator : Designator} {field : DeclId}
      (listed : designator ∈ designators) (isField : designator.field.filter v.ast.isField = some field)
      (named : v.ast.isAnonymousRecord (v.ast.declContext field) = false) : Mentions (.designatedInit designators)
        (v.addValueUse (.decl field) field .write modeWriteValue current.name designator.loc false)
  | promoted {designators : List Designator} {designator : Designator} {field record : DeclId} {e : Emission}
      (listed : designator ∈ designators) (isField : designator.field.filter v.ast.isField = some field)
      (initialized : v.initializedRecordFor around = some record)
      (offered : e ∈ v.addPromotedFieldUses current seen field record designator.loc) :
      Mentions (.designatedInit designators) e
  | call {callee : DeclId} {loc : SourceLocation} {e : Emission}
      (offered : e ∈ v.addFunctionCall current callee (v.ast.sm.spelling loc)) : Mentions (.call (some callee) loc) e
  | construct {constructor : DeclId} {loc : SourceLocation} {e : Emission}
      (offered : e ∈ v.addFunctionCall current constructor (v.ast.sm.spelling loc)) :
      Mentions (.construct constructor loc) e
  | newType {record : DeclId} {loc : SourceLocation} {e : Emission}
      (offered : e ∈ (v.addTypeUse current seen record (v.ast.recordKindForDecl record) loc []).1) :
      Mentions (.new (some record) loc) e
  | deleteType {record : DeclId} {loc : SourceLocation} {e : Emission}
      (offered : e ∈ (v.addTypeUse current seen record (v.ast.recordKindForDecl record) loc []).1) :
      Mentions (.delete (some record) loc) e
  | typedefUse {d : DeclId} {loc : SourceLocation} {type : Text} {e : Emission}
      (offered : e ∈ (v.addTypeUse current seen d .typedef loc type).1) : Mentions (.typedefTypeLoc d loc) e
  | recordUse {d : DeclId} {loc : SourceLocation} {e : Emission}
      (named : v.ast.isAnonymousRecord (some d) = false)
      (offered : e ∈ (v.addTypeUse current seen d (v.ast.recordKindForDecl d) loc []).1) :
      Mentions (.recordTypeLoc d false loc) e
  | enumUse {d : DeclId} {loc : SourceLocation} {e : Emission} (named : v.ast.getName d ≠ [])
      (offered : e ∈ (v.addTypeUse current seen d .enum loc []).1) : Mentions (.enumTypeLoc d false loc) e

def Visitor.Offers (node : Node) (e : Emission) : Prop :=
  v.Declares current seen node e ∨ v.Mentions current seen slot around node e

variable {v current seen slot around} {e : Emission}

theorem visitVarDecl_offers {d : DeclId} {var : VarDecl} (isVar : (v.ast.decl d).declClass = .var var)
    (member : e ∈ v.visitVarDecl current d var) : v.Offers current seen slot around (.decl d) e := by
  rw [Visitor.visitVarDecl,List.mem_append,List.mem_append] at member
  rcases member with (aliased | cleanup) | found
  · exact .inr (.aliasUse (.inl (by simp [Visitor.isVar,isVar])) aliased)
  · exact .inr (.cleanup isVar cleanup)
  · split at found
    · cases found
    · rename_i kept
      have recorded : v.skipsVariable current d var = false := by simpa using kept
      rw [List.mem_append] at found
      rcases found with named | found
      · split at named
        · rename_i r same
          exact .inl (.record (.ofVariable isVar recorded same) named)
        · cases named
      · rcases List.mem_cons.mp found with rfl | found
        · exact .inl (.variableSymbol isVar recorded)
        · split at found
          · rename_i initialized
            rw [List.mem_singleton.mp found]
            exact .inr (.variableWrite isVar recorded initialized)
          · cases found

theorem visitTypedefNameDecl_offers {d : DeclId} {underlying : QualType}
    (isTypedef : (v.ast.decl d).declClass = .typedef underlying)
    (member : e ∈ v.visitTypedefNameDecl current d underlying) : v.Offers current seen slot around (.decl d) e := by
  rw [Visitor.visitTypedefNameDecl] at member
  split at member
  · cases member
  · rename_i kept
    have recorded : v.includeLocal = true ∨ current.name = [] := by
      by_contra skipped
      rw [not_or] at skipped
      exact kept (by simp [skipped.1,skipped.2])
    rcases List.mem_append.mp member with named | found
    · split at named
      · rename_i r same
        exact .inl (.record (.ofTypedef isTypedef recorded same) named)
      · cases named
    · rw [List.mem_singleton.mp found]
      exact .inl (.typedef isTypedef recorded)

theorem visitRecordDecl_offers {d : DeclId} {r : RecordDecl} (isRecord : (v.ast.decl d).declClass = .record r)
    (member : e ∈ (v.visitRecordDecl seen d r).1) : v.Offers current seen slot around (.decl d) e := by
  rw [Visitor.visitRecordDecl] at member
  split at member
  · cases member
  · rename_i kept
    have recorded : v.skipsRecord d r = false := by simpa using kept
    rcases List.mem_cons.mp member with rfl | found
    · exact .inl (.recordSymbol isRecord recorded)
    · obtain ⟨entry,listed,rfl⟩ := List.mem_map.mp found
      exact .inl (.indirect isRecord recorded listed)

theorem visitFunctionDecl_offers {d : DeclId} {f : FunctionDecl} (isFunction : (v.ast.decl d).declClass = .function f)
    (member : e ∈ (v.visitFunctionDecl seen d f).1) : v.Offers current seen slot around (.decl d) e := by
  have declared : v.ast.isFunction d = true := by simp [Ast.isFunction,Ast.function?,isFunction]
  rw [Visitor.visitFunctionDecl] at member
  split at member
  · exact .inr (.aliasUse (.inr declared) member)
  · rename_i kept
    obtain ⟨recorded,first⟩ := not_or.mp (fun skipped => kept (Bool.or_eq_true_iff.mpr skipped))
    have once : (v.ast.decl d).canonical ∉ seen.functionSymbols := by simpa using first
    rcases List.mem_append.mp member with aliased | found
    · exact .inr (.aliasUse (.inr declared) aliased)
    · rcases List.mem_cons.mp found with rfl | found
      · exact .inl (.function isFunction (by simpa using recorded) once)
      · rw [List.mem_singleton.mp found]
        exact .inl (.signature isFunction (by simpa using recorded) once)

theorem visitDecl_offers {d : DeclId} (member : e ∈ (v.visitDecl current seen d).1) :
    v.Offers current seen slot around (.decl d) e := by
  rw [Visitor.visitDecl] at member
  split at member
  · rename_i var same
    exact visitVarDecl_offers same member
  · rename_i field same
    rw [Visitor.visitFieldDecl] at member
    split_ifs at member with anonymous special
    · cases member
    · cases member
    · rw [List.mem_singleton.mp member]
      exact .inl (.field same (by simpa using anonymous) (by simpa using special))
  · rename_i underlying same
    exact visitTypedefNameDecl_offers same member
  · rename_i record same
    exact visitRecordDecl_offers same member
  · rename_i enum same
    exact .inl (.enum same member)
  · rename_i type same
    rw [List.mem_singleton.mp member]
    exact .inl (.enumConstant same)
  · rename_i function same
    exact visitFunctionDecl_offers same member
  · cases member
  · cases member
  · cases member
  · cases member

theorem visitDeclRefExpr_offers {d : DeclId} {loc : SourceLocation} {isFunctionType : Bool}
    (member : e ∈ v.visitDeclRefExpr current slot around d loc isFunctionType) :
    v.Offers current seen slot around (.declRef d loc isFunctionType) e := by
  rw [Visitor.visitDeclRefExpr] at member
  dsimp only at member
  split at member
  · cases member
  · rename_i kept
    have recorded : v.skipsReference current slot around d = false := by simpa using kept
    rcases List.mem_cons.mp member with rfl | found
    · exact .inr (.reference _ recorded (.inl rfl))
    · split at found
      · rename_i called
        rw [List.mem_singleton.mp found]
        obtain ⟨pointer,callee⟩ := Bool.and_eq_true_iff.mp called
        exact .inr (.reference .call recorded (.inr ⟨rfl,by simpa using pointer,callee⟩))
      · cases found

theorem visitDesignatedInitExpr_offers {designators : List Designator}
    (member : e ∈ v.visitDesignatedInitExpr current seen around designators) :
    v.Offers current seen slot around (.designatedInit designators) e := by
  obtain ⟨designator,listed,found⟩ := List.mem_flatMap.mp member
  split at found
  · cases found
  · rename_i field same
    rcases List.mem_append.mp found with own | promoted
    · split at own
      · cases own
      · rename_i named
        rw [List.mem_singleton.mp own]
        exact .inr (.designated listed same (by simpa using named))
    · split at promoted
      · cases promoted
      · rename_i record initialized
        exact .inr (.promoted listed same initialized promoted)

theorem visitMemberExpr_offers {field : DeclId} {arrow : Bool} {base : MemberBase} {loc : SourceLocation}
    {isFunctionType : Bool}
    (member : e ∈ v.visitMemberExpr current seen slot around field base loc isFunctionType) :
    v.Offers current seen slot around (.member field arrow base loc isFunctionType) e := by
  rw [Visitor.visitMemberExpr] at member
  split at member
  · cases member
  · rename_i named
    rw [List.mem_singleton.mp member]
    exact .inr (.member (by simpa using named))

/-- Every item a visit adds is one of these. -/
theorem visit_offers {node : Node} (member : e ∈ (v.visit current seen slot around node).1) :
    v.Offers current seen slot around node e := by
  cases node with
  | decl d => exact visitDecl_offers member
  | declRef d loc isFunctionType => exact visitDeclRefExpr_offers member
  | member field arrow base loc isFunctionType => exact visitMemberExpr_offers member
  | designatedInit designators => exact visitDesignatedInitExpr_offers member
  | call callee loc =>
    cases callee with
    | none => cases member
    | some callee => exact .inr (.call member)
  | construct constructor loc => exact .inr (.construct member)
  | new record loc =>
    cases record with
    | none => cases member
    | some record => exact .inr (.newType member)
  | delete record loc =>
    cases record with
    | none => cases member
    | some record => exact .inr (.deleteType member)
  | typedefTypeLoc d loc => exact .inr (.typedefUse member)
  | recordTypeLoc d isDefinition loc =>
    rw [Visitor.visit] at member
    split at member
    · cases member
    · rename_i kept
      obtain ⟨mention,named⟩ := not_or.mp (fun skipped => kept (Bool.or_eq_true_iff.mpr skipped))
      obtain rfl : isDefinition = false := by simpa using mention
      exact .inr (.recordUse (by simpa using named) member)
  | enumTypeLoc d isDefinition loc =>
    rw [Visitor.visit] at member
    split at member
    · cases member
    · rename_i kept
      obtain ⟨mention,named⟩ : isDefinition = false ∧ v.ast.getName d ≠ [] := by simpa using kept
      subst mention
      exact .inr (.enumUse named member)
  | paren | implicitCast | addressOf | deref | increment | assignment | lambda | stmt | typeLoc => cases member

end Offers

section Remembered
variable (v : Visitor)

-- the indirect fields that a node adds to those seen
def Visitor.indirectAt : Node → List (DeclId × DeclId)
  | .decl d => match (v.ast.decl d).declClass with
    | .record r => if v.skipsRecord d r then [] else v.indirectMembers r
    | _ => []
  | _ => []

/-- The node declares the function, and the visitor does not skip it. -/
inductive Visitor.FunctionAt : Node → DeclId → Prop
  | intro {d : DeclId} {f : FunctionDecl} (isFunction : (v.ast.decl d).declClass = .function f)
      (recorded : v.skipsFunction d f = false) : FunctionAt (.decl d) (v.ast.decl d).canonical

variable {v} {current : CurrentFunction} {seen : Seen} {slot : Slot} {around : List Part}

theorem typeUse_remembers {d : DeclId} {kind : SymbolKind} {loc : SourceLocation} {type : Text} :
    (v.addTypeUse current seen d kind loc type).2.functionSymbols = seen.functionSymbols ∧
      (v.addTypeUse current seen d kind loc type).2.indirectFields = seen.indirectFields := by
  unfold Visitor.addTypeUse
  dsimp only
  split_ifs <;> exact ⟨rfl,rfl⟩

/-- A visit remembers the indirect fields of the record it declares. -/
theorem visit_indirectFields {node : Node} :
    (v.visit current seen slot around node).2.indirectFields = seen.indirectFields ++ v.indirectAt node := by
  cases node with
  | decl d =>
    simp only [Visitor.visit,Visitor.visitDecl,Visitor.indirectAt]
    cases declared : (v.ast.decl d).declClass with
    | record r =>
      simp only [Visitor.visitRecordDecl]
      split <;> simp
    | function f =>
      simp only [Visitor.visitFunctionDecl]
      split <;> simp
    | _ => simp
  | call callee loc => cases callee <;> simp [Visitor.visit,Visitor.indirectAt]
  | new record loc | delete record loc =>
    cases record <;> simp [Visitor.visit,Visitor.addRecordUse,Visitor.indirectAt,typeUse_remembers]
  | typedefTypeLoc d loc => simp [Visitor.visit,Visitor.indirectAt,typeUse_remembers]
  | recordTypeLoc d isDefinition loc | enumTypeLoc d isDefinition loc =>
    simp only [Visitor.visit,Visitor.indirectAt]
    split <;> simp [typeUse_remembers]
  | _ => simp [Visitor.visit,Visitor.indirectAt]

/-- A visit remembers the function it declares, unless it skips it. -/
theorem visit_functionSymbols {node : Node} {c : DeclId} :
    c ∈ (v.visit current seen slot around node).2.functionSymbols ↔ c ∈ seen.functionSymbols ∨ v.FunctionAt node c := by
  have other (kept : ∀ d f, node = .decl d → (v.ast.decl d).declClass ≠ .function f) : ¬ v.FunctionAt node c := by
    intro declared
    cases declared with
    | intro isFunction recorded => exact kept _ _ rfl isFunction
  cases node with
  | decl d =>
    simp only [Visitor.visit,Visitor.visitDecl]
    cases declared : (v.ast.decl d).declClass with
    | function f =>
      have found : v.FunctionAt (.decl d) c ↔ v.skipsFunction d f = false ∧ c = (v.ast.decl d).canonical := by
        constructor
        · intro here
          cases here with
          | intro isFunction recorded =>
            obtain rfl := DeclClass.function.inj (declared.symm.trans isFunction)
            exact ⟨recorded,rfl⟩
        · intro ⟨recorded,same⟩
          exact same ▸ .intro declared recorded
      rw [found]
      simp only [Visitor.visitFunctionDecl]
      by_cases skipped : v.skipsFunction d f = true
      · simp [skipped]
      · by_cases listed : (v.ast.decl d).canonical ∈ seen.functionSymbols
        · simp only [skipped,listed,List.contains_eq_mem,decide_true,Bool.or_true,if_true]
          constructor
          · exact .inl
          · intro found
            rcases found with found | ⟨_,rfl⟩
            · exact found
            · exact listed
        · simp [skipped,listed,or_comm]
    | record r =>
      simp only [Visitor.visitRecordDecl]
      split <;> simp [other (by intro e g same; cases same; simp [declared])]
    | _ => simp [other (by intro e g same; cases same; simp [declared])]
  | call callee loc => cases callee <;> simp [Visitor.visit,other]
  | new record loc | delete record loc =>
    cases record <;> simp [Visitor.visit,Visitor.addRecordUse,typeUse_remembers,other]
  | typedefTypeLoc d loc => simp [Visitor.visit,typeUse_remembers,other]
  | recordTypeLoc d isDefinition loc | enumTypeLoc d isDefinition loc =>
    simp only [Visitor.visit]
    split <;> simp [typeUse_remembers,other]
  | _ => simp [Visitor.visit,other]

variable {unit : Forest Part} {part : Part}

theorem collected_indirectFields (before : List (Part × List Part)) (seen : Seen) :
    (Forest.collect v.step before seen).2.indirectFields =
      seen.indirectFields ++ before.flatMap (fun site => v.indirectAt site.1.node) := by
  induction before generalizing seen with
  | nil => simp [Forest.collect]
  | cons site before ih => rw [Forest.collect,ih,Visitor.step,visit_indirectFields,List.flatMap_cons,List.append_assoc]

theorem collected_functionSymbols (before : List (Part × List Part)) (seen : Seen) {c : DeclId} :
    c ∈ (Forest.collect v.step before seen).2.functionSymbols ↔
      c ∈ seen.functionSymbols ∨ ∃ site ∈ before, v.FunctionAt site.1.node c := by
  induction before generalizing seen with
  | nil => simp [Forest.collect]
  | cons site before ih =>
    rw [Forest.collect,ih,Visitor.step,visit_functionSymbols,List.exists_mem_cons_iff,or_assoc]

end Remembered

section Kinds
variable {v : Visitor} {current : CurrentFunction} {seen : Seen} {slot : Slot} {around : List Part} {e : Emission}

theorem functionCall_use {d : DeclId} {loc : SourceLocation} (member : e ∈ v.addFunctionCall current d loc) :
    ∃ u, e.item = .use u := by
  rw [Visitor.addFunctionCall] at member
  split at member
  · cases member
  · dsimp only at member
    split at member <;> rw [List.mem_singleton.mp member] <;> exact ⟨_,rfl⟩

theorem aliasUse_use {d : DeclId} (member : e ∈ v.addAliasUse d) : ∃ u, e.item = .use u := by
  rw [Visitor.addAliasUse] at member
  split at member
  · cases member
  · split at member
    · cases member
    · exact ⟨_,by rw [List.mem_singleton.mp member]; rfl⟩

theorem typeUse_use {d : DeclId} {kind : SymbolKind} {loc : SourceLocation} {type : Text}
    (member : e ∈ (v.addTypeUse current seen d kind loc type).1) : ∃ u, e.item = .use u := by
  rw [Visitor.addTypeUse] at member
  split_ifs at member
  · cases member
  · cases member
  · cases member
  · cases member
  · exact ⟨_,by rw [List.mem_singleton.mp member]⟩

theorem mentions_use {node : Node} (mentions : v.Mentions current seen slot around node e) : ∃ u, e.item = .use u := by
  cases mentions with
  | aliasUse aliased member => exact aliasUse_use member
  | cleanup isVar member =>
    rw [Visitor.addCleanupCall] at member
    split at member
    · cases member
    · exact functionCall_use member
  | promoted listed isField initialized member =>
    obtain ⟨indirect,_,rfl⟩ := List.mem_map.mp member
    exact ⟨_,rfl⟩
  | call member => exact functionCall_use member
  | construct member => exact functionCall_use member
  | newType member => exact typeUse_use member
  | deleteType member => exact typeUse_use member
  | typedefUse member => exact typeUse_use member
  | recordUse named member => exact typeUse_use member
  | enumUse named member => exact typeUse_use member
  | _ => exact ⟨_,rfl⟩

theorem recordKind_cases (d : DeclId) : v.ast.recordKindForDecl d = .struct ∨ v.ast.recordKindForDecl d = .union ∨
    v.ast.recordKindForDecl d = .classType ∨ v.ast.recordKindForDecl d = .template := by
  unfold Ast.recordKindForDecl
  split
  · exact .inl rfl
  · split
    · exact .inr (.inl rfl)
    · split
      · exact .inl rfl
      · split
        · exact .inr (.inr (.inr rfl))
        · exact .inr (.inr (.inl rfl))

theorem anonymousRecord_symbol {r : DeclId} {name : Text} (member : e ∈ v.addAnonymousRecordSymbols current r name) :
    ∃ s, e.item = .symbol s ∧ s.isLocal = (s.kind = .lambda && current.name ≠ []) ∧
      (s.kind = .lambda ∨ s.kind = v.ast.recordKindForDecl r ∨ s.kind = .field) := by
  rw [Visitor.addAnonymousRecordSymbols] at member
  rcases List.mem_cons.mp member with rfl | found
  · refine ⟨_,rfl,?_,?_⟩
    · cases v.ast.isLambdaClosure r with
      | true => simp
      | false =>
        rcases @recordKind_cases v r with kind | kind | kind | kind <;> simp [kind]
    · cases v.ast.isLambdaClosure r with
      | true => exact .inl rfl
      | false => exact .inr (.inl rfl)
  · split at found
    · cases found
    · obtain ⟨field,_,rfl⟩ := List.mem_map.mp found
      exact ⟨_,rfl,rfl,.inr (.inr rfl)⟩

theorem declares_item {node : Node} (declares : v.Declares current seen node e) (u : SemindexUse) : e.item ≠ .use u := by
  cases declares with
  | record named member =>
    obtain ⟨s,symbol,_⟩ := anonymousRecord_symbol member
    rw [symbol]
    exact SemindexItem.noConfusion
  | enum isEnum member =>
    rw [Visitor.visitEnumDecl] at member
    split at member
    · cases member
    · rw [List.mem_singleton.mp member]
      exact SemindexItem.noConfusion
  | _ => exact SemindexItem.noConfusion

theorem visit_symbol {node : Node} {s : SemindexSymbol} (member : e ∈ (v.visit current seen slot around node).1)
    (symbol : e.item = .symbol s) : v.Declares current seen node e := by
  rcases visit_offers member with declares | mentions
  · exact declares
  · obtain ⟨u,use⟩ := mentions_use mentions
    rw [symbol] at use
    cases use

theorem visit_use {node : Node} {u : SemindexUse} (member : e ∈ (v.visit current seen slot around node).1)
    (use : e.item = .use u) : v.Mentions current seen slot around node e := by
  rcases visit_offers member with declares | mentions
  · exact absurd use (declares_item declares u)
  · exact mentions

end Kinds
end Semindex.Parser
