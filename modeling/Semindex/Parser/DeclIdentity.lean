import Semindex.Parser.LocalFlag

/-! The identities of symbols and uses. Each item is stored under a declaration
the visitor takes for the one that is named, or under the name of a variable or
a typedef; items of one declaration agree where they are stored alike. -/
namespace Semindex.Parser
open Semindex.Relational Semindex.Graph Semindex.IndexDb Semindex.Database

section Own
variable (ast : Ast)

structure ItemIdentity where
  symbol : Text
  kind : SymbolKind
  usr : Text
  deriving DecidableEq

def SemindexItem.identity : SemindexItem → Option ItemIdentity
  | .symbol s => some ⟨qualifiedName s.owner s.name,s.kind,s.usr⟩
  | .use u => some ⟨qualifiedName u.owner u.name,u.symbolKind,u.usr⟩
  | .signature _ => none

/-- The identity of a declaration that is stored for itself. -/
def Ast.ownIdentity (d : DeclId) : ItemIdentity :=
  match (ast.decl d).declClass with
  | .record _ => ⟨ast.qualifiedRecordName d,ast.recordKindForDecl d,(ast.decl d).usr⟩
  | .enum _ => ⟨ast.qualifiedEnumName d,.enum,(ast.decl d).usr⟩
  | .typedef _ => ⟨ast.getName d,.typedef,(ast.decl d).usr⟩
  | _ => ⟨qualifiedName (ast.getOwnerName d) (ast.getName d),ast.symbolKindForDecl d,(ast.decl d).usr⟩

def Ast.isRecord (d : DeclId) : Bool := (ast.record? d).isSome

-- neither a type nor an alias of one
def Ast.isValue (d : DeclId) : Bool :=
  match (ast.decl d).declClass with
  | .record _ | .enum _ | .typedef _ => false
  | _ => true

/-- What the frontend promises of declarations: redeclarations agree, USRs tell entities apart and are there for
records and for all that has a name, and only the names of functions have colons. A record without a name need
not differ in its USR from one of another entity. -/
structure Ast.Promises : Prop where
  redeclared : ∀ d, ast.ownIdentity (ast.decl d).canonical = ast.ownIdentity d ∧
    ast.getName (ast.decl d).canonical = ast.getName d
  distinct : ∀ d e, (ast.decl d).usr = (ast.decl e).usr → (ast.decl d).usr ≠ [] →
    ast.isRecord d = false ∨ (ast.decl (ast.pattern d)).canonical = (ast.decl (ast.pattern e)).canonical →
      (ast.decl d).canonical = (ast.decl e).canonical
  identified : ∀ d, ast.getName d ≠ [] ∨ ast.isRecord d = true → (ast.decl d).usr ≠ []
  plain : ∀ d, ':' ∈ ast.getName d → ast.isFunction d = true

/-- What a declaration is told apart by. -/
inductive Key where
  | entity (canonical : DeclId)
  | bare (identity : ItemIdentity)

def Ast.key (d : DeclId) : Key :=
  if (ast.decl d).usr = [] then .bare (ast.ownIdentity d) else .entity (ast.decl d).canonical

variable {ast} {d e : DeclId}

theorem ownIdentity_usr : (ast.ownIdentity d).usr = (ast.decl d).usr := by
  unfold Ast.ownIdentity
  split <;> rfl

theorem ownIdentity_value (value : ast.isValue d = true) : ast.ownIdentity d =
    ⟨qualifiedName (ast.getOwnerName d) (ast.getName d),ast.symbolKindForDecl d,(ast.decl d).usr⟩ := by
  unfold Ast.isValue at value
  unfold Ast.ownIdentity
  split at value
  · cases value
  · cases value
  · cases value
  · rfl

theorem Ast.Promises.identity_eq (promises : ast.Promises) (same : (ast.decl d).canonical = (ast.decl e).canonical) :
    ast.ownIdentity d = ast.ownIdentity e ∧ ast.getName d = ast.getName e := by
  obtain ⟨first,named⟩ := promises.redeclared d
  obtain ⟨second,named'⟩ := promises.redeclared e
  rw [same] at first named
  exact ⟨first.symm.trans second,named.symm.trans named'⟩

/-- Declarations have one identity of their own just where they have one key. -/
theorem Ast.Promises.key_iff (promises : ast.Promises) (one : ast.isRecord d = false ∨ ast.isRecord e = false ∨
    (ast.decl (ast.pattern d)).canonical = (ast.decl (ast.pattern e)).canonical) :
    ast.key d = ast.key e ↔ ast.ownIdentity d = ast.ownIdentity e := by
  unfold Ast.key
  constructor
  · intro same
    split at same <;> split at same
    · exact Key.bare.inj same
    · cases same
    · cases same
    · exact (promises.identity_eq (Key.entity.inj same)).1
  · intro same
    have usr : (ast.decl d).usr = (ast.decl e).usr := by
      rw [← ownIdentity_usr,same,ownIdentity_usr]
    by_cases bare : (ast.decl d).usr = []
    · rw [if_pos bare,if_pos (usr ▸ bare),same]
    · rw [if_neg bare,if_neg (usr ▸ bare)]
      rcases one with value | value | same
      · rw [promises.distinct d e usr bare (.inl value)]
      · rw [promises.distinct e d usr.symm (usr ▸ bare) (.inl value)]
      · rw [promises.distinct d e usr bare (.inr same)]

theorem key_identified (promises : ast.Promises) (known : ast.getName d ≠ [] ∨ ast.isRecord d = true) :
    ast.key d = .entity (ast.decl d).canonical := if_neg (promises.identified d known)

end Own

section Colons
variable {ast : Ast}

-- the number of colons tells the names of variables and typedefs from qualified names
def colons (text : Text) : Nat := text.count ':'

theorem colons_plain {text : Text} (plain : ':' ∉ text) : colons text = 0 := List.count_eq_zero.mpr plain

theorem colons_append (a b : Text) : colons (a ++ b) = colons a + colons b := List.count_append

theorem colons_qualifiedName (owner name : Text) : ∃ k, colons (qualifiedName owner name) =
    colons owner + colons name + 2*k := by
  unfold qualifiedName
  split
  · rename_i empty
    exact ⟨0,by simp [empty,colons]⟩
  · split
    · exact ⟨1,by rw [colons_append,colons_append,show colons "::".toList = 2 from rfl]; omega⟩
    · exact ⟨0,by rw [colons_append,colons_append,show colons ".".toList = 0 from rfl]; omega⟩

theorem colons_namespacePrefix (promises : ast.Promises) (d : DeclId) : colons (ast.namespacePrefix d) % 2 = 0 := by
  have step (spaces : List DeclId) (found : Text) (namespaces : ∀ space ∈ spaces, ast.isNamespace space = true)
      (even : colons found % 2 = 0) :
      colons (spaces.foldl (fun found space => ast.getName space ++ "::".toList ++ found) found) % 2 = 0 := by
    induction spaces generalizing found with
    | nil => exact even
    | cons space spaces ih =>
      refine ih _ (fun other member => namespaces other (List.mem_cons_of_mem _ member)) ?_
      have plain : ':' ∉ ast.getName space := by
        intro colon
        have function := promises.plain space colon
        have isNamespace := namespaces space List.mem_cons_self
        unfold Ast.isNamespace at isNamespace
        split at isNamespace
        · rename_i isClass
          simp [Ast.isFunction,Ast.function?,isClass] at function
        · cases isNamespace
      rw [colons_append,colons_append,colons_plain plain,show colons "::".toList = 2 from rfl]
      omega
  refine step _ [] (fun space member => ?_) rfl
  exact (List.all_eq_true.mp List.all_takeWhile) space member

theorem qualifiedTypeName_eq (d : DeclId) : ast.qualifiedTypeName d = ast.namespacePrefix d ++ ast.getName d := by
  unfold Ast.qualifiedTypeName
  by_cases outer : ast.namespacePrefix d = []
  · simp [outer]
  · simp [outer]

theorem colons_qualifiedTypeName (promises : ast.Promises) {d : DeclId} (type : ast.isFunction d = false) :
    colons (ast.qualifiedTypeName d) % 2 = 0 := by
  have plain : ':' ∉ ast.getName d := fun colon => absurd (promises.plain d colon) (by simp [type])
  have even := colons_namespacePrefix promises d
  rw [qualifiedTypeName_eq,colons_append,colons_plain plain]
  exact even

end Colons

section Named
variable (v : Visitor)

def Ast.members (ast : Ast) (r : DeclId) : List DeclId := ((ast.record? r).map RecordDecl.decls).getD []

/-- The members of the template that a method or a field of an instantiation may be taken for: those of its name,
and of as many parameters. -/
def Ast.namesakes (ast : Ast) (d : DeclId) : List DeclId :=
  match (ast.declContext d).filter (fun r => ast.isSpecialization (some r)) with
  | none => []
  | some r => if ast.primaryRecord r = r then [] else (ast.members (ast.primaryRecord r)).filter (fun p =>
      if ast.isMethod d then ast.isMethod p && ast.identifier p = ast.identifier d &&
        ast.parameterCount p = ast.parameterCount d
      else ast.isField d && (ast.isField p && ast.identifier p = ast.identifier d))

/-- What the first of its namesakes is, or else the declaration. -/
def Ast.namesake (ast : Ast) (d : DeclId) : DeclId := (ast.namesakes d).head?.getD d

-- the indirect fields of the records so far that stand for the field in this record
def Visitor.promotions (before : List (Part × List Part)) (field : DeclId) (record : Option DeclId) : List DeclId :=
  ((before.flatMap (fun site => v.indirectAt site.1.node)).filter (fun entry =>
    entry.1 = field && v.ast.declContext entry.2 = record)).map Prod.snd

/-- The declaration an item is stored for, where it is stored for one: a field of an anonymous record is looked
up in the record from which the whole chain of members starts. -/
def Visitor.taken (before : List (Part × List Part)) : Reference → DeclId
  | .decl d => v.ast.namesake d
  | .member field base =>
    if v.ast.isField field && v.ast.isAnonymousRecord (v.ast.declContext field) then
      (v.promotions before field (memberBaseRecord base)).head?.getD (v.ast.namesake field)
    else v.ast.namesake field
  | .named _ => 0

/-- The record a field of an anonymous record is promoted into: members without a name lead to it. -/
def Ast.promotedInto (ast : Ast) : MemberBase → Option DeclId
  | .value record => record
  | .member field record base => if ast.getName field = [] then ast.promotedInto base else record

def Ast.promotedField (ast : Ast) (record field : DeclId) : Option DeclId :=
  (ast.members record).find? (fun member => match (ast.decl member).declClass with
    | .indirectField f => f.anonField = field
    | _ => false)

/-- The declaration that the text names: a field of an anonymous record is the promoted field of the record
around it that has a name, or itself where none has. -/
def Ast.denoted (ast : Ast) : Reference → Option DeclId
  | .decl d => some d
  | .member field base =>
    if ast.isField field && ast.isAnonymousRecord (ast.declContext field) then
      some ((((ast.promotedInto base).filter (fun record => ast.getName record ≠ [])).bind
        (fun record => ast.promotedField record field)).getD field)
    else some field
  | .named _ => none

/-- The entity of the declaration, which for a member of an instantiation is that of the template. -/
def Ast.entity (ast : Ast) (reference : Reference) : Option DeclId :=
  (ast.denoted reference).map (fun d => (ast.decl (ast.pattern d)).canonical)

variable {v} {d : DeclId}

theorem primaryMember_eq (ast : Ast) (d : DeclId) (same : DeclId → Bool) : ast.primaryMember d same =
    (match (ast.declContext d).filter (fun r => ast.isSpecialization (some r)) with
      | none => []
      | some r => if ast.primaryRecord r = r then [] else (ast.members (ast.primaryRecord r)).filter same).head?.getD d := by
  unfold Ast.primaryMember
  cases Option.filter (fun r => ast.isSpecialization (some r)) (ast.declContext d) with
  | none => rfl
  | some r =>
    dsimp only
    split
    · rfl
    · rw [List.head?_filter,Ast.members]

theorem primaryValueDecl_eq (d : DeclId) : v.ast.primaryValueDecl d = v.ast.namesake d := by
  unfold Ast.primaryValueDecl Ast.namesake Ast.namesakes
  rw [primaryMember_eq,primaryMember_eq]
  by_cases method : v.ast.isMethod d = true
  · simp only [method,if_true]
  · by_cases field : v.ast.isField d = true
    · simp only [method,field,Bool.false_eq_true,if_false,if_true,Bool.true_and]
    · simp only [method,field,Bool.false_eq_true,if_false,Bool.false_and,List.filter_false]
      cases Option.filter (fun r => v.ast.isSpecialization (some r)) (v.ast.declContext d) with
      | none => rfl
      | some r =>
        dsimp only
        split <;> rfl

theorem namesake_cases (d : DeclId) : v.ast.namesake d = d ∨
    v.ast.isMethod (v.ast.namesake d) = true ∨ v.ast.isField (v.ast.namesake d) = true := by
  rw [← primaryValueDecl_eq,Ast.primaryValueDecl]
  split
  · rcases primaryMember_cases v.ast d (fun p => v.ast.isMethod p && v.ast.identifier p = v.ast.identifier d &&
      v.ast.parameterCount p = v.ast.parameterCount d) with same | found
    · exact .inl same
    · exact .inr (.inl (Bool.and_eq_true_iff.mp (Bool.and_eq_true_iff.mp found).1).1)
  · split
    · rcases primaryMember_cases v.ast d (fun p => v.ast.isField p && v.ast.identifier p = v.ast.identifier d) with
        same | found
      · exact .inl same
      · exact .inr (.inr (Bool.and_eq_true_iff.mp found).1)
    · exact .inl rfl

theorem method_value (method : v.ast.isMethod d = true) : v.ast.isValue d = true ∧ v.ast.isRecord d = false := by
  obtain ⟨f,known,_⟩ := any_function method
  simp [Ast.isValue,Ast.isRecord,Ast.record?,function_class known]

theorem field_value (field : v.ast.isField d = true) : v.ast.isValue d = true ∧ v.ast.isRecord d = false := by
  unfold Ast.isField at field
  split at field
  · rename_i isClass
    simp [Ast.isValue,Ast.isRecord,Ast.record?,isClass]
  · cases field

theorem namesake_value (value : v.ast.isValue d = true) : v.ast.isValue (v.ast.namesake d) = true := by
  rcases @namesake_cases v d with same | method | field
  · rw [same]
    exact value
  · exact (method_value method).1
  · exact (field_value field).1

theorem value_record (value : v.ast.isValue d = true) : v.ast.isRecord d = false := by
  unfold Ast.isValue at value
  unfold Ast.isRecord Ast.record?
  split at value
  · cases value
  · cases value
  · cases value
  · split
    · rename_i record same
      exact absurd same (by simp_all)
    · rfl

-- a declaration outside instantiations is its own namesake
theorem namesake_primary (primary : v.ast.isSpecialization (v.ast.declContext d) = false) : v.ast.namesake d = d := by
  unfold Ast.namesake Ast.namesakes
  cases context : v.ast.declContext d with
  | none => rfl
  | some r =>
    rw [context] at primary
    simp [Option.filter,primary]

theorem namesake_other (method : v.ast.isMethod d = false) (field : v.ast.isField d = false) :
    v.ast.namesake d = d := by
  rw [← primaryValueDecl_eq]
  simp [Ast.primaryValueDecl,method,field]

theorem promotedFieldFor_eq (before : List (Part × List Part)) (field : DeclId) (record : Option DeclId) :
    v.promotedFieldFor (Forest.collect v.step before Seen.empty).2 field record =
      (v.promotions before field record).head? := by
  have listed := @collected_indirectFields v before Seen.empty
  unfold Visitor.promotedFieldFor Visitor.promotions
  rw [listed]
  change List.find? _ (List.map Prod.snd (List.filter _ ([] ++ _))) = _
  rw [List.nil_append,← List.head?_filter,List.filter_map,List.filter_filter]
  congr 2
  apply List.filter_congr
  intro entry _
  simp [Bool.and_comm]

end Named

section Stored
variable (v : Visitor) (unit : Forest Part)

/-- How an item is stored: for a declaration, under the name of a variable or a typedef, or as a lambda. -/
inductive Form where
  | own (key : Key)
  | named (name : Text) (key : Key)
  | closure (key : Key)

inductive Visitor.StoredAs : Emission → Form → Prop
  | named {part : Part} {around : List Part} {seen : Seen} {d r member : DeclId} {e : Emission}
      (reached : v.Reaches unit part around seen) (node : part.node = .decl d)
      (names : v.NamesRecord (v.current (part::around)) d r) (ordinary : v.ast.isLambdaClosure r = false)
      (offered : e ∈ v.addAnonymousRecordSymbols (v.current (part::around)) r (v.ast.anonymousRecordName d))
      (reference : e.reference = .decl member) : StoredAs e (.named (v.ast.getName d) (v.ast.key member))
  | closure {part : Part} {around : List Part} {seen : Seen} {d r : DeclId} {e : Emission}
      (reached : v.Reaches unit part around seen) (node : part.node = .decl d)
      (names : v.NamesRecord (v.current (part::around)) d r) (lambda : v.ast.isLambdaClosure r = true)
      (offered : e ∈ v.addAnonymousRecordSymbols (v.current (part::around)) r (v.ast.anonymousRecordName d)) :
      StoredAs e (.closure (v.ast.key r))
  | lambdaCall {part : Part} {around : List Part} {callee closure : DeclId} {loc : SourceLocation} {e : Emission}
      (visited : (part,around) ∈ unit.visits []) (call : v.CallsAt part.node callee loc)
      (lambda : v.lambdaCallee callee = some closure)
      (offered : e ∈ v.addFunctionCall (v.current (part::around)) callee loc) : StoredAs e (.closure (v.ast.key closure))
  | own {before after : List (Part × List Part)} {part : Part} {around : List Part} {e : Emission}
      (order : unit.visits [] = before ++ (part,around)::after)
      (offered : e ∈ (v.visit (v.current (part::around)) (Forest.collect v.step before Seen.empty).2 part.slot around
        part.node).1)
      (unnamed : ∀ {d r}, part.node = .decl d → v.NamesRecord (v.current (part::around)) d r →
        e ∉ v.addAnonymousRecordSymbols (v.current (part::around)) r (v.ast.anonymousRecordName d))
      (direct : ∀ {callee loc}, v.CallsAt part.node callee loc →
        e ∈ v.addFunctionCall (v.current (part::around)) callee loc → v.lambdaCallee callee = none) :
      StoredAs e (.own (v.ast.key (v.taken before e.reference)))

/-- The nodes and types of the frontend name declarations of their own class. -/
structure Visitor.Typed : Prop where
  declRef : ∀ {part around d loc isFunctionType}, (part,around) ∈ unit.visits [] →
    part.node = .declRef d loc isFunctionType → v.ast.isValue d = true
  member : ∀ {part around d arrow base loc isFunctionType}, (part,around) ∈ unit.visits [] →
    part.node = .member d arrow base loc isFunctionType → v.ast.isValue d = true
  call : ∀ {part around callee loc}, (part,around) ∈ unit.visits [] → v.CallsAt part.node callee loc →
    v.ast.isFunction callee = true
  typedefType : ∀ {part around d loc}, (part,around) ∈ unit.visits [] → part.node = .typedefTypeLoc d loc →
    ∃ underlying, (v.ast.decl d).declClass = .typedef underlying
  recordType : ∀ {part around d isDefinition loc}, (part,around) ∈ unit.visits [] →
    part.node = .recordTypeLoc d isDefinition loc → v.ast.isRecord d = true
  allocated : ∀ {part around d loc}, (part,around) ∈ unit.visits [] →
    part.node = .new (some d) loc ∨ part.node = .delete (some d) loc → v.ast.isRecord d = true
  enumType : ∀ {part around d isDefinition loc}, (part,around) ∈ unit.visits [] →
    part.node = .enumTypeLoc d isDefinition loc → ∃ enum, (v.ast.decl d).declClass = .enum enum
  namedRecord : ∀ {current d r}, v.NamesRecord current d r → v.ast.isRecord r = true

variable {v unit} {part : Part} {around : List Part} {e : Emission} {current : CurrentFunction}

theorem storedAs_exists (offered : e ∈ v.traverseDecl unit) : ∃ form, v.StoredAs unit e form := by
  obtain ⟨part,around,seen,reached,member⟩ := mem_traverseDecl.mp offered
  by_cases named : ∃ d r, part.node = .decl d ∧ v.NamesRecord (v.current (part::around)) d r ∧
      e ∈ v.addAnonymousRecordSymbols (v.current (part::around)) r (v.ast.anonymousRecordName d)
  · obtain ⟨d,r,node,names,found⟩ := named
    cases lambda : v.ast.isLambdaClosure r with
    | true => exact ⟨_,.closure reached node names lambda found⟩
    | false =>
      have reference : ∃ m, e.reference = .decl m := by
        rw [Visitor.addAnonymousRecordSymbols] at found
        rcases List.mem_cons.mp found with rfl | field
        · exact ⟨r,rfl⟩
        · split at field
          · cases field
          · obtain ⟨m,_,rfl⟩ := List.mem_map.mp field
            exact ⟨m,rfl⟩
      obtain ⟨m,reference⟩ := reference
      exact ⟨_,.named reached node names lambda found reference⟩
  · by_cases called : ∃ callee loc closure, v.CallsAt part.node callee loc ∧ v.lambdaCallee callee = some closure ∧
        e ∈ v.addFunctionCall (v.current (part::around)) callee loc
    · obtain ⟨callee,loc,closure,call,lambda,found⟩ := called
      exact ⟨_,.lambdaCall (reaches_visited reached) call lambda found⟩
    · obtain ⟨before,after,order,rfl⟩ := reached
      refine ⟨_,.own order member ?_ ?_⟩
      · intro d r node names found
        exact named ⟨d,r,node,names,found⟩
      · intro callee loc call found
        cases lambda : v.lambdaCallee callee with
        | none => rfl
        | some closure => exact (called ⟨callee,loc,closure,call,lambda,found⟩).elim

theorem valueUse_identity (details : v.details = true) {reference : Reference} {d : DeclId} {kind : UseKind}
    {mode : Nat} {context : Text} {loc : SourceLocation} {isLocal : Bool} (value : v.ast.isValue d = true) :
    (v.addValueUse reference d kind mode context loc isLocal).item.identity =
      some (v.ast.ownIdentity (v.ast.namesake d)) := by
  rw [ownIdentity_value (namesake_value value),← primaryValueDecl_eq]
  simp [Visitor.addValueUse,SemindexItem.identity,Ast.valueInfo,details]

theorem typeUse_identity (details : v.details = true) {seen : Seen} {d : DeclId} {kind : SymbolKind}
    {loc : SourceLocation} {type : Text} (member : e ∈ (v.addTypeUse current seen d kind loc type).1) :
    e.reference = .decl d ∧ e.item.identity = some ⟨v.ast.typeIdentityName d,kind,(v.ast.decl d).usr⟩ := by
  rw [Visitor.addTypeUse] at member
  split_ifs at member
  · cases member
  · cases member
  · cases member
  · cases member
  · rw [List.mem_singleton.mp member]
    refine ⟨rfl,?_⟩
    simp [SemindexItem.identity,Visitor.detailedUSR,details,qualifiedName]

theorem function_value {d : DeclId} (function : v.ast.isFunction d = true) :
    v.ast.isValue d = true ∧ v.ast.symbolKindForDecl d = .function := by
  obtain ⟨f,known⟩ := Option.isSome_iff_exists.mp function
  simp [Ast.isValue,Ast.symbolKindForDecl,function_class known]

theorem functionUSR_own (promises : v.ast.Promises) (d : DeclId) :
    v.ast.functionUSR d = (v.ast.decl (v.ast.namesake d)).usr := by
  have same := congrArg ItemIdentity.usr (promises.redeclared (v.ast.namesake d)).1
  rw [ownIdentity_usr,ownIdentity_usr] at same
  rw [Ast.functionUSR,primaryValueDecl_eq,same]

/-- A call of a function that is no lambda is stored for what the function is taken for. -/
theorem functionCall_identity (promises : v.ast.Promises) {callee : DeclId} {loc : SourceLocation}
    (function : v.ast.isFunction callee = true) (direct : v.lambdaCallee callee = none)
    (member : e ∈ v.addFunctionCall current callee loc) :
    e.reference = .decl callee ∧ e.item.identity = some (v.ast.ownIdentity (v.ast.namesake callee)) := by
  have found := (function_value (primary_function function)).1
  have kind := (function_value (primary_function function)).2
  rw [primaryValueDecl_eq] at found kind
  rw [ownIdentity_value found,kind,← functionUSR_own promises]
  rw [Visitor.addFunctionCall] at member
  unfold Visitor.lambdaCallee at direct
  split at member
  · cases member
  · simp only [direct] at member
    rw [List.mem_singleton.mp member]
    refine ⟨rfl,?_⟩
    simp [SemindexItem.identity,Ast.valueInfo,primaryValueDecl_eq]

theorem indirect_value {d : DeclId} {f : IndirectFieldDecl} (isIndirect : (v.ast.decl d).declClass = .indirectField f) :
    v.ast.isValue d = true ∧ v.ast.namesake d = d := by
  refine ⟨by simp [Ast.isValue,isIndirect],?_⟩
  rw [← primaryValueDecl_eq,indirect_primary isIndirect]

theorem usedMember_taken {before after : List (Part × List Part)} {field : DeclId} {base : MemberBase}
    (order : unit.visits [] = before ++ (part,around)::after) (value : v.ast.isValue field = true) :
    v.ast.isValue (v.usedMember (Forest.collect v.step before Seen.empty).2 field base) = true ∧
      v.ast.namesake (v.usedMember (Forest.collect v.step before Seen.empty).2 field base) =
        v.taken before (.member field base) := by
  have reached : v.Reaches unit part around (Forest.collect v.step before Seen.empty).2 := ⟨before,after,order,rfl⟩
  rw [Visitor.usedMember,Visitor.taken]
  split
  · rw [promotedFieldFor_eq]
    cases promoted : (v.promotions before field (memberBaseRecord base)).head? with
    | none => exact ⟨value,rfl⟩
    | some indirect =>
      have listed := List.mem_of_head? promoted
      obtain ⟨entry,kept,rfl⟩ := List.mem_map.mp listed
      obtain ⟨seen,same⟩ := List.mem_filter.mp kept
      obtain ⟨f,isIndirect,_⟩ := @reaches_indirect v part around unit _ reached entry.1 entry.2 (by
        rw [collected_indirectFields]
        exact List.mem_append_right _ seen)
      exact indirect_value isIndirect
  · exact ⟨value,rfl⟩

/-- The item has the identity of the declaration that is taken, which for a record is the one that is named. -/
def Visitor.StoredFor (before : List (Part × List Part)) (e : Emission) : Prop :=
  ∀ identity, e.item.identity = some identity → identity = v.ast.ownIdentity (v.taken before e.reference) ∧
    (v.ast.isRecord (v.taken before e.reference) = true →
      v.ast.entity e.reference = some (v.ast.decl (v.ast.pattern (v.taken before e.reference))).canonical)

variable {before after : List (Part × List Part)}

theorem storedFor_decl {d : DeclId} (reference : e.reference = .decl d)
    (own : e.item.identity = some (v.ast.ownIdentity (v.ast.namesake d))) : v.StoredFor before e := by
  intro identity item
  rw [reference]
  refine ⟨Option.some.inj (item.symm.trans own),fun isRecord => ?_⟩
  change v.ast.isRecord (v.ast.namesake d) = true at isRecord
  change some (v.ast.decl (v.ast.pattern d)).canonical = some (v.ast.decl (v.ast.pattern (v.ast.namesake d))).canonical
  rcases @namesake_cases v d with same | method | field
  · rw [same]
  · rw [(method_value method).2] at isRecord
    cases isRecord
  · rw [(field_value field).2] at isRecord
    cases isRecord

-- for a declaration that is no member and has no namesakes
theorem storedFor_plain {d : DeclId} (reference : e.reference = .decl d)
    (other : v.ast.isMethod d = false ∧ v.ast.isField d = false)
    (own : e.item.identity = some (v.ast.ownIdentity d)) : v.StoredFor before e := by
  refine storedFor_decl reference ?_
  rw [namesake_other other.1 other.2]
  exact own

theorem storedFor_type (details : v.details = true) {d : DeclId} {kind : SymbolKind} {loc : SourceLocation} {type : Text}
    {seen : Seen} (member : e ∈ (v.addTypeUse current seen d kind loc type).1)
    (own : v.ast.ownIdentity d = ⟨v.ast.typeIdentityName d,kind,(v.ast.decl d).usr⟩)
    (other : v.ast.isMethod d = false ∧ v.ast.isField d = false) : v.StoredFor before e := by
  obtain ⟨reference,same⟩ := typeUse_identity details member
  exact storedFor_plain reference other (own ▸ same)

theorem record_own {d : DeclId} (isRecord : v.ast.isRecord d = true) :
    v.ast.ownIdentity d = ⟨v.ast.qualifiedTypeName d,v.ast.recordKindForDecl d,(v.ast.decl d).usr⟩ ∧
      v.ast.typeIdentityName d = v.ast.qualifiedTypeName d ∧ v.ast.isMethod d = false ∧ v.ast.isField d = false := by
  unfold Ast.isRecord Ast.record? at isRecord
  split at isRecord
  · rename_i r isClass
    simp [Ast.ownIdentity,Ast.typeIdentityName,Ast.isMethod,Ast.isField,Ast.function?,isClass,Ast.qualifiedRecordName]
  · cases isRecord

theorem storedFor_record (details : v.details = true) {d : DeclId} {loc : SourceLocation} {seen : Seen}
    (isRecord : v.ast.isRecord d = true)
    (member : e ∈ (v.addTypeUse current seen d (v.ast.recordKindForDecl d) loc []).1) : v.StoredFor before e := by
  obtain ⟨own,name,other⟩ := record_own isRecord
  exact storedFor_type details member (by rw [own,name]) other

theorem aliasTarget_value {d target : DeclId} {attr : AliasAttr} (found : v.aliasTarget d attr = some target) :
    v.ast.isValue target = true := by
  have kinds := List.find?_some found
  simp only [Bool.and_eq_true,Bool.or_eq_true] at kinds
  rcases kinds.2 with ⟨_,function⟩ | ⟨_,isVar⟩
  · exact (function_value function).1
  · unfold Visitor.isVar at isVar
    split at isVar
    · rename_i isClass
      simp [Ast.isValue,isClass]
    · cases isVar

/-- A symbol that is not stored under a name is stored for its declaration. -/
theorem declares_storedFor (promises : v.ast.Promises) (details : v.details = true) {seen : Seen} {node : Node}
    (declares : v.Declares current seen node e) (unnamed : ∀ {d r}, node = .decl d → v.NamesRecord current d r →
      e ∉ v.addAnonymousRecordSymbols current r (v.ast.anonymousRecordName d)) : v.StoredFor before e := by
  cases declares with
  | record names member => exact (unnamed rfl names member).elim
  | variableSymbol isVar kept =>
    refine storedFor_plain rfl (by simp [Ast.isMethod,Ast.isField,Ast.function?,isVar]) ?_
    simp [Visitor.variableSymbol,Visitor.addSymbolInScope,SemindexItem.identity,Ast.ownIdentity,isVar,Ast.getOwnerName,
      Ast.hasRecordOwner,Ast.symbolKindForDecl,Ast.getName]
  | field isField named primary =>
    refine storedFor_decl rfl ?_
    rw [namesake_primary primary]
    simp [Visitor.fieldSymbol,Visitor.addSymbolInScope,SemindexItem.identity,Ast.ownIdentity,isField,Ast.getName]
  | typedef isTypedef recorded =>
    refine storedFor_plain rfl (by simp [Ast.isMethod,Ast.isField,Ast.function?,isTypedef]) ?_
    simp [Visitor.typedefSymbol,Visitor.addSymbolInScope,SemindexItem.identity,Ast.ownIdentity,isTypedef,Ast.getName,
      qualifiedName]
  | recordSymbol isRecord recorded =>
    refine storedFor_plain rfl (by simp [Ast.isMethod,Ast.isField,Ast.function?,isRecord]) ?_
    simp [Visitor.typeSymbol,Visitor.addSymbolInScope,SemindexItem.identity,Ast.ownIdentity,isRecord,qualifiedName]
  | indirect isRecord recorded listed =>
    obtain ⟨f,isIndirect,_⟩ := indirect_listed listed
    refine storedFor_decl rfl ?_
    rw [(indirect_value isIndirect).2,ownIdentity_value (indirect_value isIndirect).1]
    simp [Visitor.addIndirectField,Visitor.addSymbolInScope,SemindexItem.identity,Ast.valueInfo,details,
      indirect_primary isIndirect]
  | enum isEnum member =>
    rw [Visitor.visitEnumDecl] at member
    split at member
    · cases member
    · rw [List.mem_singleton.mp member]
      refine storedFor_plain rfl (by simp [Ast.isMethod,Ast.isField,Ast.function?,isEnum]) ?_
      simp [Visitor.typeSymbol,Visitor.addSymbolInScope,SemindexItem.identity,Ast.ownIdentity,isEnum,qualifiedName]
  | enumConstant isConstant =>
    refine storedFor_plain rfl (by simp [Ast.isMethod,Ast.isField,Ast.function?,isConstant]) ?_
    simp [Visitor.enumConstantSymbol,Visitor.addSymbolInScope,SemindexItem.identity,Ast.ownIdentity,isConstant,
      Ast.getOwnerName,Ast.hasRecordOwner,Ast.symbolKindForDecl,Ast.getName]
  | function isFunction recorded first =>
    have own := recorded_primary (by simp [Ast.function?,isFunction]) recorded
    rw [primaryValueDecl_eq] at own
    refine storedFor_decl rfl ?_
    rw [own]
    simp [Visitor.functionSymbol,Visitor.addSymbolInScope,SemindexItem.identity,Ast.ownIdentity,isFunction,
      functionUSR_own promises,own,Ast.symbolKindForDecl,Ast.getName]
  | signature isFunction recorded first =>
    intro identity item
    cases item

/-- A use that is not of a lambda is stored for the declaration that is taken. -/
theorem mentions_storedFor (promises : v.ast.Promises) (typed : v.Typed unit) (details : v.details = true)
    (order : unit.visits [] = before ++ (part,around)::after) {slot : Slot} {node : Node} (same : part.node = node)
    (mentions : v.Mentions current (Forest.collect v.step before Seen.empty).2 slot around node e)
    (direct : ∀ {callee loc}, v.CallsAt part.node callee loc → e ∈ v.addFunctionCall current callee loc →
      v.lambdaCallee callee = none) : v.StoredFor before e := by
  have reached : v.Reaches unit part around (Forest.collect v.step before Seen.empty).2 := ⟨before,after,order,rfl⟩
  have visited := reaches_visited reached
  have calls {callee : DeclId} {loc : SourceLocation} (call : v.CallsAt part.node callee loc)
      (member : e ∈ v.addFunctionCall current callee loc) : v.StoredFor before e := by
    obtain ⟨reference,same⟩ := functionCall_identity promises (typed.call visited call) (direct call member) member
    exact storedFor_decl reference same
  cases mentions with
  | aliasUse aliased member =>
    rw [Visitor.addAliasUse] at member
    split at member
    · cases member
    · split at member
      · cases member
      · rename_i target found
        rw [List.mem_singleton.mp member]
        exact storedFor_decl rfl (valueUse_identity details (aliasTarget_value found))
  | cleanup isVar member =>
    rw [Visitor.addCleanupCall] at member
    split at member
    · cases member
    · rename_i cleanup attached
      exact calls (same ▸ .cleanup isVar attached) member
  | variableWrite isVar kept initialized =>
    refine storedFor_plain rfl (by simp [Ast.isMethod,Ast.isField,Ast.function?,isVar]) ?_
    simp [Visitor.variableWrite,SemindexItem.identity,Ast.ownIdentity,isVar,Ast.getOwnerName,Ast.hasRecordOwner,
      Ast.symbolKindForDecl,Ast.getName,Visitor.detailedUSR,details]
  | reference kind recorded classified =>
    exact storedFor_decl rfl (valueUse_identity details (typed.declRef visited same))
  | @member field arrow base loc isFunctionType named =>
    obtain ⟨value,taken⟩ := @usedMember_taken v unit part around before after field base order
      (typed.member visited same)
    intro identity item
    have use := Option.some.inj (item.symm.trans (valueUse_identity details value))
    refine ⟨use.trans (congrArg v.ast.ownIdentity taken),fun isRecord => ?_⟩
    change v.ast.isRecord (v.taken before (.member field base)) = true at isRecord
    rw [← taken,value_record (namesake_value value)] at isRecord
    cases isRecord
  | designated listed isField named =>
    exact storedFor_decl rfl (valueUse_identity details (field_value (Option.filter_eq_some_iff.mp isField).2).1)
  | promoted listed isField initialized member =>
    obtain ⟨indirect,found,rfl⟩ := List.mem_map.mp member
    obtain ⟨entry,seenEntry,rfl⟩ := List.mem_map.mp (List.mem_filter.mp found).1
    obtain ⟨f,isIndirect,_⟩ := reaches_indirect reached (List.mem_filter.mp seenEntry).1
    exact storedFor_decl rfl (valueUse_identity details (indirect_value isIndirect).1)
  | call member => exact calls (same ▸ .call) member
  | construct member => exact calls (same ▸ .construct) member
  | newType member => exact storedFor_record details (typed.allocated visited (.inl same)) member
  | deleteType member => exact storedFor_record details (typed.allocated visited (.inr same)) member
  | typedefUse member =>
    obtain ⟨underlying,isClass⟩ := typed.typedefType visited same
    exact storedFor_type details member (by simp [Ast.ownIdentity,Ast.typeIdentityName,isClass])
      (by simp [Ast.isMethod,Ast.isField,Ast.function?,isClass])
  | recordUse named member => exact storedFor_record details (typed.recordType visited same) member
  | enumUse named member =>
    obtain ⟨enum,isClass⟩ := typed.enumType visited same
    exact storedFor_type details member (by simp [Ast.ownIdentity,Ast.typeIdentityName,isClass])
      (by simp [Ast.isMethod,Ast.isField,Ast.function?,isClass])

end Stored

section Forms
variable (ast : Ast) (entity : Option DeclId)

/-- The identities that items of the entity have in each form. -/
inductive Ast.Carries : Form → ItemIdentity → Prop
  | own {t : DeclId} (known : ast.isRecord t = true → entity = some (ast.decl (ast.pattern t)).canonical) :
      Carries (.own (ast.key t)) (ast.ownIdentity t)
  | record {name : Text} {r : DeclId} (plain : ':' ∉ name) (isRecord : ast.isRecord r = true)
      (known : entity = some (ast.decl (ast.pattern r)).canonical) :
      Carries (.named name (ast.key r)) ⟨':'::name,ast.recordKindForDecl r,(ast.decl r).usr⟩
  | field {name : Text} {f : DeclId} (plain : ':' ∉ name) (isField : ast.isField f = true) (named : ast.getName f ≠ [])
      (known : entity = some (ast.decl (ast.pattern f)).canonical) :
      Carries (.named name (ast.key f)) ⟨qualifiedName (':'::name) (ast.getName f),.field,(ast.decl f).usr⟩
  | closure {c : DeclId} (isRecord : ast.isRecord c = true)
      (known : entity = some (ast.decl (ast.pattern c)).canonical) :
      Carries (.closure (ast.key c)) ⟨"__lambda".toList,.lambda,(ast.decl c).usr⟩

variable {ast entity} {form form' : Form} {identity identity' : ItemIdentity} {d e : DeclId}

theorem recordKind_type (d : DeclId) : ast.recordKindForDecl d ≠ .lambda ∧ ast.recordKindForDecl d ≠ .field ∧
    ast.recordKindForDecl d ≠ .enum ∧ ast.recordKindForDecl d ≠ .typedef := by
  unfold Ast.recordKindForDecl
  split
  · simp
  · split
    · simp
    · split
      · simp
      · split <;> simp

theorem valueKind (d : DeclId) : ast.symbolKindForDecl d = .field ∨ ast.symbolKindForDecl d = .enumConstant ∨
    ast.symbolKindForDecl d = .function ∨ ast.symbolKindForDecl d = .var := by
  unfold Ast.symbolKindForDecl
  split <;> simp

theorem own_not_lambda (d : DeclId) : (ast.ownIdentity d).kind ≠ .lambda := by
  unfold Ast.ownIdentity
  split
  · exact (recordKind_type d).1
  · simp
  · simp
  · rcases @valueKind ast d with kind | kind | kind | kind <;> simp [kind]

-- what is stored for itself has an even number of colons, except for functions
theorem own_colons (promises : ast.Promises) (other : ast.isFunction d = false) :
    colons (ast.ownIdentity d).symbol % 2 = 0 := by
  have plain : ':' ∉ ast.getName d := fun colon => absurd (promises.plain d colon) (by simp [other])
  unfold Ast.ownIdentity
  split
  · exact colons_qualifiedTypeName promises other
  · exact colons_qualifiedTypeName promises other
  · simp [colons_plain plain]
  · obtain ⟨k,same⟩ := colons_qualifiedName (ast.getOwnerName d) (ast.getName d)
    have owner : colons (ast.getOwnerName d) % 2 = 0 := by
      unfold Ast.getOwnerName
      split
      · rfl
      · split
        · rfl
        · rename_i context _
          split
          · rfl
          · rename_i r isRecord
            refine colons_qualifiedTypeName promises ?_
            unfold Ast.record? at isRecord
            split at isRecord
            · rename_i isClass
              simp [Ast.isFunction,Ast.function?,isClass]
            · cases isRecord
    rw [colons_plain plain] at same
    dsimp only
    omega

theorem own_function (isFunction : ast.isFunction d = true) : (ast.ownIdentity d).kind = .function := by
  unfold Ast.isFunction Ast.function? at isFunction
  unfold Ast.ownIdentity
  split at isFunction
  · rename_i isClass
    simp [isClass,Ast.symbolKindForDecl]
  · cases isFunction

theorem colons_cons (name : Text) (plain : ':' ∉ name) : colons (':'::name) = 1 := by
  have none := colons_plain plain
  unfold colons at none ⊢
  rw [List.count_cons_self,none]

/-- A name that a variable or a typedef gives is none that a declaration has. -/
theorem own_not_named (promises : ast.Promises) {name : Text} {kind : SymbolKind} {usr : Text}
    (odd : colons name % 2 = 1) (other : kind ≠ .function) : ast.ownIdentity d ≠ ⟨name,kind,usr⟩ := by
  intro same
  have ordinary : ast.isFunction d = false := by
    by_contra function
    have kinds := own_function (by simpa using function : ast.isFunction d = true)
    rw [same] at kinds
    exact other kinds
  have even := own_colons promises ordinary
  rw [same] at even
  dsimp only at even
  omega

theorem named_odd {name field : Text} (plain : ':' ∉ name) (named : ':' ∉ field) :
    colons (qualifiedName (':'::name) field) % 2 = 1 := by
  obtain ⟨k,same⟩ := colons_qualifiedName (':'::name) field
  rw [colons_cons name plain,colons_plain named] at same
  omega

theorem named_injective {name name' field : Text} (plain : ':' ∉ name) (plain' : ':' ∉ name')
    (same : qualifiedName (':'::name) field = qualifiedName (':'::name') field) : name = name' := by
  have single {name : Text} (plain : ':' ∉ name) : ¬ "::".toList <:+: ':'::name := by
    intro inside
    have count := inside.sublist.count_le ':'
    have one := colons_cons name plain
    unfold colons at one
    rw [one] at count
    exact absurd count (by decide)
  simp only [qualifiedName,single plain,single plain',List.cons_ne_nil,if_false,List.append_assoc] at same
  exact List.cons.inj (List.append_cancel_right same) |>.2

theorem isField_kind (field : ast.isField d = true) : ast.isRecord d = false ∧ ast.isFunction d = false ∧
    (ast.ownIdentity d).kind = .field := by
  unfold Ast.isField at field
  split at field
  · rename_i isClass
    simp [Ast.isRecord,Ast.record?,Ast.isFunction,Ast.function?,Ast.ownIdentity,isClass,Ast.symbolKindForDecl]
  · cases field

theorem isRecord_own (isRecord : ast.isRecord d = true) : (ast.ownIdentity d).kind = ast.recordKindForDecl d := by
  unfold Ast.isRecord Ast.record? at isRecord
  split at isRecord
  · rename_i r isClass
    simp [Ast.ownIdentity,isClass]
  · cases isRecord

-- a record or a field of the entity is told apart by its USR
theorem Ast.Promises.keys (promises : ast.Promises) (known : ast.getName d ≠ [] ∨ ast.isRecord d = true)
    (known' : ast.getName e ≠ [] ∨ ast.isRecord e = true)
    (one : ast.isRecord d = false ∨ (ast.decl (ast.pattern d)).canonical = (ast.decl (ast.pattern e)).canonical) :
    ast.key d = ast.key e ↔ (ast.decl d).usr = (ast.decl e).usr := by
  rw [key_identified promises known,key_identified promises known']
  constructor
  · intro same
    have own := (promises.identity_eq (Key.entity.inj same)).1
    rw [← ownIdentity_usr,own,ownIdentity_usr]
  · intro same
    rw [promises.distinct d e same (promises.identified d known) one]

theorem key_own (promises : ast.Promises) (known : ast.getName d ≠ [] ∨ ast.isRecord d = true)
    (known' : ast.getName e ≠ [] ∨ ast.isRecord e = true) (same : ast.key d = ast.key e) :
    ast.ownIdentity d = ast.ownIdentity e ∧ ast.getName d = ast.getName e := by
  rw [key_identified promises known,key_identified promises known'] at same
  exact promises.identity_eq (Key.entity.inj same)

section Rows
variable {t r f : DeclId} {name name' : Text}

theorem recordKind_callable (r : DeclId) : ast.recordKindForDecl r ≠ .function := by
  rcases @recordKind_cases ⟨ast,.all,true,true,textHash⟩ r with kind | kind | kind | kind <;>
    exact fun same => absurd (kind.symm.trans same) (by simp)

theorem own_not_record (promises : ast.Promises) (plain : ':' ∉ name) :
    ast.ownIdentity t ≠ ⟨':'::name,ast.recordKindForDecl r,(ast.decl r).usr⟩ :=
  own_not_named promises (by rw [colons_cons name plain]) (recordKind_callable r)

theorem own_not_field (promises : ast.Promises) (plain : ':' ∉ name) (isField : ast.isField f = true) :
    ast.ownIdentity t ≠ ⟨qualifiedName (':'::name) (ast.getName f),.field,(ast.decl f).usr⟩ := by
  refine own_not_named promises (named_odd plain ?_) (by simp)
  exact fun colon => absurd (promises.plain f colon) (by simp [(isField_kind isField).2.1])

-- the key of a field is none of a record
theorem record_not_field (promises : ast.Promises) (isRecord : ast.isRecord r = true) (isField : ast.isField f = true)
    (named : ast.getName f ≠ []) : ast.key r ≠ ast.key f := by
  intro same
  have kinds := congrArg ItemIdentity.kind (key_own promises (.inr isRecord) (.inl named) same).1
  rw [isRecord_own isRecord,(isField_kind isField).2.2] at kinds
  exact (recordKind_type r).2.1 kinds

theorem records_iff (promises : ast.Promises) {r' : DeclId} (isRecord : ast.isRecord r = true)
    (isRecord' : ast.isRecord r' = true)
    (one : (ast.decl (ast.pattern r)).canonical = (ast.decl (ast.pattern r')).canonical) :
    (⟨':'::name,ast.recordKindForDecl r,(ast.decl r).usr⟩ : ItemIdentity) =
      ⟨':'::name',ast.recordKindForDecl r',(ast.decl r').usr⟩ ↔ name = name' ∧ ast.key r = ast.key r' := by
  have keys := promises.keys (.inr isRecord) (.inr isRecord') (.inr one)
  constructor
  · intro same
    injection same with symbol kind usr
    exact ⟨List.cons.inj symbol |>.2,keys.mpr usr⟩
  · intro same
    have kinds := congrArg ItemIdentity.kind (key_own promises (.inr isRecord) (.inr isRecord') same.2).1
    rw [isRecord_own isRecord,isRecord_own isRecord'] at kinds
    rw [same.1,kinds,keys.mp same.2]

theorem fields_iff (promises : ast.Promises) {f' : DeclId} (plain : ':' ∉ name) (plain' : ':' ∉ name')
    (isField : ast.isField f = true) (named : ast.getName f ≠ []) (named' : ast.getName f' ≠ []) :
    (⟨qualifiedName (':'::name) (ast.getName f),.field,(ast.decl f).usr⟩ : ItemIdentity) =
      ⟨qualifiedName (':'::name') (ast.getName f'),.field,(ast.decl f').usr⟩ ↔
        name = name' ∧ ast.key f = ast.key f' := by
  have keys := promises.keys (.inl named) (.inl named') (.inl (isField_kind isField).1)
  constructor
  · intro same
    injection same with symbol kind usr
    have fields := keys.mpr usr
    rw [← (key_own promises (.inl named) (.inl named') fields).2] at symbol
    exact ⟨named_injective plain plain' symbol,fields⟩
  · intro same
    rw [same.1,(key_own promises (.inl named) (.inl named') same.2).2,keys.mp same.2]

theorem closures_iff (promises : ast.Promises) {r' : DeclId} (isRecord : ast.isRecord r = true)
    (isRecord' : ast.isRecord r' = true)
    (one : (ast.decl (ast.pattern r)).canonical = (ast.decl (ast.pattern r')).canonical) :
    (⟨"__lambda".toList,.lambda,(ast.decl r).usr⟩ : ItemIdentity) = ⟨"__lambda".toList,.lambda,(ast.decl r').usr⟩ ↔
      ast.key r = ast.key r' := by
  rw [promises.keys (.inr isRecord) (.inr isRecord') (.inr one)]
  exact ⟨congrArg ItemIdentity.usr,fun same => by rw [same]⟩

end Rows

theorem owns_iff (promises : ast.Promises) {t t' : DeclId}
    (known : ast.isRecord t = true → entity = some (ast.decl (ast.pattern t)).canonical)
    (known' : ast.isRecord t' = true → entity = some (ast.decl (ast.pattern t')).canonical) :
    ast.ownIdentity t = ast.ownIdentity t' ↔ ast.key t = ast.key t' := by
  refine (promises.key_iff ?_).symm
  cases isRecord : ast.isRecord t with
  | false => exact .inl rfl
  | true =>
    cases isRecord' : ast.isRecord t' with
    | false => exact .inr (.inl rfl)
    | true => exact .inr (.inr (Option.some.inj ((known isRecord).symm.trans (known' isRecord'))))

theorem own_carries (promises : ast.Promises) {t : DeclId}
    (known : ast.isRecord t = true → entity = some (ast.decl (ast.pattern t)).canonical)
    (second : ast.Carries entity form identity) : ast.ownIdentity t = identity ↔ .own (ast.key t) = form := by
  cases second with
  | own known' => rw [owns_iff promises known known',Form.own.injEq]
  | record plain isRecord known' => exact iff_of_false (own_not_record promises plain) Form.noConfusion
  | field plain isField named known' => exact iff_of_false (own_not_field promises plain isField) Form.noConfusion
  | closure isRecord known' =>
    exact iff_of_false (fun same => own_not_lambda t (congrArg ItemIdentity.kind same)) Form.noConfusion

/-- Two items of one entity have one identity just where they are stored in one form. -/
theorem carries_iff (promises : ast.Promises) (first : ast.Carries entity form identity)
    (second : ast.Carries entity form' identity') : identity = identity' ↔ form = form' := by
  cases first with
  | own known => exact own_carries promises known second
  | @record name r plain isRecord known =>
    cases second with
    | own known' => exact eq_comm.trans ((own_carries promises known' (.record plain isRecord known)).trans eq_comm)
    | record plain' isRecord' known' =>
      rw [records_iff promises isRecord isRecord' (Option.some.inj (known.symm.trans known')),Form.named.injEq]
    | field plain' isField named known' =>
      refine iff_of_false (fun same => ?_) (fun same => ?_)
      · exact (recordKind_type r).2.1 (congrArg ItemIdentity.kind same)
      · exact record_not_field promises isRecord isField named (Form.named.inj same).2
    | closure isRecord' known' =>
      exact iff_of_false (fun same => (recordKind_type r).1 (congrArg ItemIdentity.kind same)) Form.noConfusion
  | @field name f plain isField named known =>
    cases second with
    | own known' => exact eq_comm.trans ((own_carries promises known' (.field plain isField named known)).trans eq_comm)
    | @record name' r plain' isRecord' known' =>
      refine iff_of_false (fun same => ?_) (fun same => ?_)
      · exact (recordKind_type r).2.1 (congrArg ItemIdentity.kind same).symm
      · exact record_not_field promises isRecord' isField named (Form.named.inj same).2.symm
    | field plain' isField' named' known' =>
      rw [fields_iff promises plain plain' isField named named',Form.named.injEq]
    | closure isRecord' known' =>
      exact iff_of_false (fun same => by cases congrArg ItemIdentity.kind same) Form.noConfusion
  | @closure c isRecord known =>
    cases second with
    | own known' => exact eq_comm.trans ((own_carries promises known' (.closure isRecord known)).trans eq_comm)
    | @record name' r plain' isRecord' known' =>
      exact iff_of_false (fun same => (recordKind_type r).1 (congrArg ItemIdentity.kind same).symm) Form.noConfusion
    | field plain' isField' named' known' =>
      exact iff_of_false (fun same => by cases congrArg ItemIdentity.kind same) Form.noConfusion
    | closure isRecord' known' =>
      rw [closures_iff promises isRecord isRecord' (Option.some.inj (known.symm.trans known')),Form.closure.injEq]

end Forms

section Carried
variable {v : Visitor} {unit : Forest Part} {e : Emission} {form form' : Form} {identity identity' : ItemIdentity}

theorem anonymousRecordFields_field {fuel : Nat} {r f : DeclId} (member : f ∈ v.ast.anonymousRecordFields fuel r) :
    v.ast.isField f = true ∧ v.ast.getName f ≠ [] := by
  induction fuel generalizing r with
  | zero => cases member
  | succ fuel ih =>
    obtain ⟨field,listed,found⟩ := List.mem_flatMap.mp member
    dsimp only at found
    split at found
    · cases inner : (v.ast.decl field).fieldRecord with
      | none =>
        rw [inner] at found
        cases found
      | some r =>
        rw [inner] at found
        exact ih found
    · split at found
      · cases found
      · rename_i named
        rw [List.mem_singleton.mp found]
        exact ⟨(List.mem_filter.mp listed).2,named⟩

theorem namesRecord_plain (promises : v.ast.Promises) {current : CurrentFunction} {d r : DeclId}
    (names : v.NamesRecord current d r) : ':' ∉ v.ast.getName d := by
  intro colon
  have function := promises.plain d colon
  cases names with
  | ofVariable isVar => simp [Ast.isFunction,Ast.function?,isVar] at function
  | ofTypedef isTypedef => simp [Ast.isFunction,Ast.function?,isTypedef] at function

theorem closure_record {r : DeclId} (lambda : v.ast.isLambdaClosure r = true) : v.ast.isRecord r = true := by
  unfold Ast.isLambdaClosure Ast.cxx? at lambda
  unfold Ast.isRecord
  cases isRecord : v.ast.record? r with
  | none => simp [isRecord] at lambda
  | some record => rfl

/-- The identity of an item is one of its form. -/
theorem storedAs_carries (promises : v.ast.Promises) (typed : v.Typed unit) (details : v.details = true)
    (stored : v.StoredAs unit e form) (item : e.item.identity = some identity) :
    v.ast.Carries (v.ast.entity e.reference) form identity := by
  cases stored with
  | @named part around seen d r member _ reached node names ordinary offered reference =>
    have plain := namesRecord_plain promises names
    rw [Visitor.addAnonymousRecordSymbols] at offered
    rcases List.mem_cons.mp offered with rfl | field
    · obtain rfl := Reference.decl.inj reference
      have own : identity = ⟨':'::v.ast.getName d,v.ast.recordKindForDecl r,(v.ast.decl r).usr⟩ := by
        refine (Option.some.inj item).symm.trans ?_
        simp [ordinary,qualifiedName,Ast.anonymousRecordName]
      rw [own]
      exact .record plain (typed.namedRecord names) rfl
    · rw [ordinary] at field
      obtain ⟨f,listed,rfl⟩ := List.mem_map.mp field
      obtain rfl := Reference.decl.inj reference
      obtain ⟨isField,named⟩ := anonymousRecordFields_field listed
      rw [← Option.some.inj item]
      exact .field plain isField named rfl
  | @closure part around seen d r _ reached node names lambda offered =>
    rw [Visitor.addAnonymousRecordSymbols,lambda] at offered
    obtain rfl := List.mem_singleton.mp offered
    have own : identity = ⟨"__lambda".toList,.lambda,(v.ast.decl r).usr⟩ := by
      refine (Option.some.inj item).symm.trans ?_
      simp [qualifiedName]
    rw [own]
    exact .closure (closure_record lambda) rfl
  | @lambdaCall part around callee closure loc _ visited call lambda offered =>
    have isLambda : v.ast.isLambdaClosure closure = true := by
      unfold Visitor.lambdaCallee at lambda
      split at lambda
      · exact (Option.filter_eq_some_iff.mp lambda).2
      · cases lambda
    rw [Visitor.addFunctionCall] at offered
    unfold Visitor.lambdaCallee at lambda
    split at offered
    · cases offered
    · simp only [lambda] at offered
      obtain rfl := List.mem_singleton.mp offered
      have own : identity = ⟨"__lambda".toList,.lambda,(v.ast.decl closure).usr⟩ := by
        refine (Option.some.inj item).symm.trans ?_
        simp [qualifiedName]
      rw [own]
      exact .closure (closure_record isLambda) rfl
  | @own before after part around _ order offered unnamed direct =>
    have same : v.StoredFor before e := by
      rcases visit_offers offered with declares | mentions
      · exact declares_storedFor promises details declares (fun node names => unnamed node names)
      · exact mentions_storedFor promises typed details order rfl mentions direct
    obtain ⟨own,known⟩ := same identity item
    rw [own]
    exact .own known

/-- Items of one entity have one identity just where their forms are one. -/
theorem identity_form_iff (promises : v.ast.Promises) (typed : v.Typed unit) (details : v.details = true) {e' : Emission}
    (stored : v.StoredAs unit e form) (stored' : v.StoredAs unit e' form')
    (entity : v.ast.entity e.reference = v.ast.entity e'.reference) (item : e.item.identity = some identity)
    (item' : e'.item.identity = some identity') : identity = identity' ↔ form = form' := by
  have first := storedAs_carries promises typed details stored item
  rw [entity] at first
  exact carries_iff promises first (storedAs_carries promises typed details stored' item')

end Carried
end Semindex.Parser
