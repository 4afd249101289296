import Semindex.Parser.Index

/-! What the visitor asks the frontend: the source manager, the declarations of a
translation unit, and the names it gives them. A declaration is the number of its
node, and `decl` what the frontend knows about it. -/
namespace Semindex.Parser

abbrev SourceLocation := Nat
abbrev DeclId := Nat

structure PresumedLoc where
  file : Text
  line : Nat
  column : Nat

structure SourceManager where
  presumed : SourceLocation → Option PresumedLoc
  spelling : SourceLocation → SourceLocation
  expansion : SourceLocation → SourceLocation
  isMacro : SourceLocation → Bool
  pointWithin : SourceLocation → SourceLocation → SourceLocation → Bool
  -- the buffer of the file and the offset in it
  characterData : SourceLocation → Option (List UInt8 × Nat)
  writtenInMainFile : SourceLocation → Bool
  inPredefinedFile : SourceLocation → Bool
  inSystemHeader : SourceLocation → Bool

structure TypeName where
  text : Text
  -- the outermost type is a typedef or a typeof
  sugar : Bool
  enumDecl : Option DeclId

structure QualType where
  written : TypeName
  canonical : TypeName
  record : Option DeclId
  isTypedef : Bool

inductive TypeLoc where
  | typedef (decl : DeclId)
  | record (decl : DeclId)
  | enum (decl : DeclId)
  | other

structure TypeSourceInfo where
  locs : List TypeLoc
  writtenAsTypedef : Bool

structure AliasAttr where
  aliasee : Text
  location : SourceLocation
  rangeBegin : SourceLocation
  rangeText : Text

structure CleanupAttr where
  function : DeclId
  argument : SourceLocation
  location : SourceLocation
  declBegin : SourceLocation
  declEnd : SourceLocation

structure VarDecl where
  type : QualType
  info : Option TypeSourceInfo
  isParameter : Bool
  hasInit : Bool
  cleanup : Option CleanupAttr

structure FieldDecl where
  type : QualType
  info : Option TypeSourceInfo

structure IndirectFieldDecl where
  chain : List DeclId
  anonField : DeclId
  type : QualType

inductive FunctionClass where
  | plain | method | constructor | destructor | conversion | deductionGuide
  deriving DecidableEq

structure FunctionDecl where
  functionClass : FunctionClass
  type : QualType
  returnType : QualType
  parameters : List DeclId
  variadic : Bool
  hasBody : Bool
  isDefinition : Bool
  hasPrototype : Bool
  hasDefinition : Bool
  redecls : List DeclId
  constructorAttr : Bool
  destructorAttr : Bool

structure CxxRecord where
  isLambda : Bool
  isSpecialization : Bool
  instantiationPattern : Option DeclId
  describedTemplate : Option DeclId

structure RecordDecl where
  isUnion : Bool
  isDefinition : Bool
  braceBegin : SourceLocation
  decls : List DeclId
  cxx : Option CxxRecord

structure EnumDecl where
  isDefinition : Bool
  hasTypedefName : Bool

inductive DeclClass where
  | var (var : VarDecl)
  | field (field : FieldDecl)
  | indirectField (field : IndirectFieldDecl)
  | enumConstant (type : QualType)
  | function (function : FunctionDecl)
  | record (record : RecordDecl)
  | enum (enum : EnumDecl)
  | typedef (underlying : QualType)
  | namespace
  | block
  | other

inductive Linkage where
  | none | internal | module | external
  deriving DecidableEq

structure Decl where
  declClass : DeclClass
  name : Text
  -- the name is an identifier, so not that of an operator, a conversion, a constructor or a destructor
  isIdentifier : Bool := true
  -- empty where the frontend generates none
  usr : Text := []
  -- the contexts around the declaration, from the inside out
  contexts : List DeclId := []
  canonical : DeclId
  location : SourceLocation
  linkage : Linkage := .none
  -- the member of the template, for a member of an instantiation; the visitor does not ask for it
  instantiatedFrom : Option DeclId := none
  aliasAttr : Option AliasAttr := none

def Decl.fields (d : Decl) : List DeclId :=
  match d.declClass with
  | .record r => r.decls
  | _ => []

def Decl.fieldRecord (d : Decl) : Option DeclId :=
  match d.declClass with
  | .field f => f.type.record
  | _ => none

/-- The declarations of a translation unit. A field has a complete type, so records nest finitely. -/
structure Ast where
  decl : DeclId → Decl
  named : Text → List DeclId
  sm : SourceManager
  nesting : DeclId → Nat
  nested : ∀ d, ∀ f ∈ (decl d).fields, ∀ inner, (decl f).fieldRecord = some inner → nesting inner < nesting d

section Names
variable (ast : Ast)

def Ast.getName (d : DeclId) : Text := (ast.decl d).name

def Ast.declContext (d : DeclId) : Option DeclId := (ast.decl d).contexts.head?

def Ast.record? (d : DeclId) : Option RecordDecl :=
  match (ast.decl d).declClass with
  | .record r => some r
  | _ => none

def Ast.cxx? (d : DeclId) : Option CxxRecord := (ast.record? d).bind RecordDecl.cxx

def Ast.function? (d : DeclId) : Option FunctionDecl :=
  match (ast.decl d).declClass with
  | .function f => some f
  | _ => none

def Ast.isFunction (d : DeclId) : Bool := (ast.function? d).isSome

-- plain functions and deduction guides are no methods
def FunctionClass.isMethod : FunctionClass → Bool
  | .plain | .deductionGuide => false
  | .method | .constructor | .destructor | .conversion => true

def Ast.isMethod (d : DeclId) : Bool := (ast.function? d).any (fun f => f.functionClass.isMethod)

def Ast.isField (d : DeclId) : Bool :=
  match (ast.decl d).declClass with
  | .field _ => true
  | _ => false

def Ast.symbolKindForDecl (d : DeclId) : SymbolKind :=
  match (ast.decl d).declClass with
  | .field _ | .indirectField _ => .field
  | .enumConstant _ => .enumConstant
  | .function _ => .function
  | _ => .var

def Ast.hasRecordOwner (d : DeclId) : Bool :=
  match (ast.decl d).declClass with
  | .field _ | .indirectField _ => true
  | .function f => f.functionClass.isMethod
  | _ => false

def Ast.isNamespace (d : DeclId) : Bool :=
  match (ast.decl d).declClass with
  | .namespace => true
  | _ => false

def Ast.namespacePrefix (d : DeclId) : Text :=
  ((ast.decl d).contexts.takeWhile ast.isNamespace).foldl
    (fun found space => ast.getName space ++ "::".toList ++ found) []

-- records and enumerations alike
def Ast.qualifiedTypeName (d : DeclId) : Text :=
  let found := ast.namespacePrefix d
  let found := if found = [] then [] else found ++ ast.getName d
  if found = [] then ast.getName d else found

def Ast.qualifiedRecordName (d : DeclId) : Text := ast.qualifiedTypeName d
def Ast.qualifiedEnumName (d : DeclId) : Text := ast.qualifiedTypeName d

def Ast.getOwnerName (d : DeclId) : Text :=
  if !ast.hasRecordOwner d then []
  else match ast.declContext d with
    | none => []
    | some context => match ast.record? context with
      | none => []
      | some _ => ast.qualifiedRecordName context

def Ast.recordKindForDecl (d : DeclId) : SymbolKind :=
  match ast.record? d with
  | none => .struct
  | some r =>
    if r.isUnion then .union
    else match r.cxx with
      | none => .struct
      | some cxx => if cxx.describedTemplate.isSome then .template else .classType

def Ast.isLambdaClosure (d : DeclId) : Bool := (ast.cxx? d).any CxxRecord.isLambda

def Ast.lambdaClosureFor (d : DeclId) : Option DeclId := (ast.declContext d).filter ast.isLambdaClosure

def Ast.isAnonymousRecord (d : Option DeclId) : Bool := d.any (fun d => decide (ast.getName d = []))

def Ast.isSpecialization (d : Option DeclId) : Bool := (d.bind ast.cxx?).any CxxRecord.isSpecialization

def Ast.anonymousRecordName (d : DeclId) : Text := ':'::ast.getName d

def Ast.typeNameForRecord (d : DeclId) (name : Text) : Text :=
  (if (ast.record? d).any RecordDecl.isUnion then "union ".toList else "struct ".toList) ++ name

def Ast.typeName (type : TypeName) : Text :=
  if type.sugar then type.text
  else match type.enumDecl with
    | none => type.text
    | some d =>
      let typedefName := match (ast.decl d).declClass with
        | .enum e => e.hasTypedefName
        | _ => false
      if ast.getName d ≠ [] || typedefName then type.text
      else match ast.sm.presumed (ast.decl d).location with
        | none => "enum (unnamed)".toList
        | some loc => "enum (unnamed at ".toList ++ loc.file ++ ":".toList ++ loc.line.repr.toList ++ ":".toList ++
            loc.column.repr.toList ++ ")".toList

def Ast.stableTypeName (type : QualType) : Text := ast.typeName type.written
def Ast.canonicalTypeName (type : QualType) : Text := ast.typeName type.canonical

def Ast.declaredTypeIdentity (info : Option TypeSourceInfo) : Option (SymbolKind × DeclId) :=
  info.bind (fun info => info.locs.findSome? (fun
    | .typedef d => some (.typedef,d)
    | .record d => some (ast.recordKindForDecl d,d)
    | .enum d => some (.enum,d)
    | .other => none))

def Ast.typeIdentityName (d : DeclId) : Text :=
  match (ast.decl d).declClass with
  | .record _ => ast.qualifiedRecordName d
  | .enum _ => ast.qualifiedEnumName d
  | _ => ast.getName d

/-- The kind, symbol and USR that `setDeclaredTypeIdentity` fills in. -/
def Ast.typeIdentity (info : Option TypeSourceInfo) : SymbolKind × Text × Text :=
  match ast.declaredTypeIdentity info with
  | none => (.var,[],[])
  | some (kind,d) => if ast.getName d = [] then (.var,[],[]) else (kind,ast.typeIdentityName d,(ast.decl d).usr)

def Ast.typeNameForTypedef (d : DeclId) (underlying : QualType) : Text :=
  match underlying.record.filter (fun r => ast.isAnonymousRecord (some r)) with
  | some r => ast.typeNameForRecord r (ast.anonymousRecordName d)
  | none => ast.stableTypeName underlying

end Names

section Primary
variable (ast : Ast)

def Ast.primaryRecord (d : DeclId) : DeclId :=
  match ast.cxx? d with
  | none => d
  | some cxx => if !cxx.isSpecialization then d else (cxx.instantiationPattern.or cxx.describedTemplate).getD d

-- `NamedDecl::getName`, which has no text for other names than identifiers
def Ast.identifier (d : DeclId) : Text := if (ast.decl d).isIdentifier then ast.getName d else []

def Ast.parameterCount (d : DeclId) : Nat := ((ast.function? d).map (fun f => f.parameters.length)).getD 0

def Ast.primaryMember (d : DeclId) (same : DeclId → Bool) : DeclId :=
  match (ast.declContext d).filter (fun r => ast.isSpecialization (some r)) with
  | none => d
  | some r =>
    if ast.primaryRecord r = r then d
    else (((ast.record? (ast.primaryRecord r)).map RecordDecl.decls).getD []).find? same |>.getD d

theorem primaryMember_cases (d : DeclId) (same : DeclId → Bool) :
    ast.primaryMember d same = d ∨ same (ast.primaryMember d same) = true := by
  unfold Ast.primaryMember
  split
  · exact .inl rfl
  · rename_i r _
    split
    · exact .inl rfl
    · cases found : List.find? same (((ast.record? (ast.primaryRecord r)).map RecordDecl.decls).getD []) with
      | none => exact .inl rfl
      | some p => exact .inr (List.find?_some found)

def Ast.primaryValueDecl (d : DeclId) : DeclId :=
  if ast.isMethod d then
    ast.primaryMember d (fun p => ast.isMethod p && ast.identifier p = ast.identifier d &&
      ast.parameterCount p = ast.parameterCount d)
  else if ast.isField d then
    ast.primaryMember d (fun p => ast.isField p && ast.identifier p = ast.identifier d)
  else d

structure ValueInfo where
  kind : SymbolKind
  name : Text
  owner : Text
  type : Text
  canonicalType : Text
  usr : Text

def Ast.valueType (d : DeclId) : Option QualType :=
  match (ast.decl d).declClass with
  | .var v => some v.type
  | .field f => some f.type
  | .indirectField f => some f.type
  | .enumConstant type => some type
  | .function f => some f.type
  | _ => none

def Ast.valueInfo (details : Bool) (d : DeclId) : ValueInfo :=
  let d := ast.primaryValueDecl d
  { kind := ast.symbolKindForDecl d, name := ast.getName d, owner := ast.getOwnerName d,
    type := if details then ((ast.valueType d).map ast.stableTypeName).getD [] else [],
    canonicalType := if details then ((ast.valueType d).map ast.canonicalTypeName).getD [] else [],
    usr := if details then (ast.decl d).usr else [] }

def Ast.functionUSR (d : DeclId) : Text := (ast.decl (ast.decl (ast.primaryValueDecl d)).canonical).usr

end Primary

section Listed

-- the bytes of the line before the offset
def lineBefore (buffer : List UInt8) (offset : Nat) : List UInt8 :=
  ((buffer.take offset).reverse.takeWhile (· ≠ 10)).reverse

/-- One file without macros. A location is the offset and one. -/
def SourceManager.ofText (file text : Text) : SourceManager where
  presumed loc :=
    if loc = 0 then none
    else some ⟨file,((utf8 text).take (loc-1)).count 10 + 1,(lineBefore (utf8 text) (loc-1)).length + 1⟩
  spelling loc := loc
  expansion loc := loc
  isMacro _ := false
  pointWithin loc first last := first ≤ loc && loc ≤ last
  characterData loc := if loc = 0 then none else some (utf8 text,loc-1)
  writtenInMainFile _ := true
  inPredefinedFile _ := false
  inSystemHeader _ := false

def Decl.none : Decl := { declClass := .other, name := [], canonical := 0, location := 0 }

/-- Declarations in a list, each record behind those its fields have as their type. -/
def Ast.ofDecls (decls : List Decl) (sm : SourceManager)
    (nested : ∀ entry ∈ decls.zipIdx, ∀ f ∈ entry.1.fields, ∀ inner ∈ (decls[f]?.getD .none).fieldRecord,
      inner < entry.2) : Ast where
  decl d := decls[d]?.getD .none
  named name := (List.range decls.length).filter (fun d => decide ((decls[d]?.getD .none).name = name))
  sm := sm
  nesting d := d
  nested := by
    intro d f member inner found
    cases listed : decls[d]? with
    | none =>
      rw [listed] at member
      cases member
    | some decl =>
      rw [listed] at member
      exact nested (decl,d) (List.mem_zipIdx_iff_getElem?.mpr listed) f member inner found

theorem listed_function {ast : Ast} {decls : List Decl} (listed : ast.decl = fun d => decls[d]?.getD .none)
    {d : DeclId} (function : ast.isFunction d) : d < decls.length := by
  by_contra outside
  have absent : decls[d]? = none := List.getElem?_eq_none (Nat.le_of_not_lt outside)
  simp [Ast.isFunction,Ast.function?,listed,absent,Decl.none] at function

def intType : QualType := ⟨⟨"int".toList,false,none⟩,⟨"int".toList,false,none⟩,none,false⟩

def textHash (text : Text) : Id := BitVec.ofNat 64 (text.foldl (fun n c => 31*n + c.toNat) 1)

end Listed
end Semindex.Parser
