import Semindex.Parser.Ast
import Semindex.Graph.Forest

/-! The visitor of the syntax tree. A node is visited with the function it is in,
with the nodes around it and with what was seen before; it adds items to the
index, each with what the program text names there. -/
namespace Semindex.Parser
open Semindex.Graph

structure SemindexSourceLocation where
  file : Text
  line : Nat
  column : Nat

structure SemindexSymbol where
  kind : SymbolKind
  name : Text
  owner : Text
  type : Text
  canonicalType : Text := []
  typeIdentity : SymbolKind × Text × Text := (.var,[],[])
  usr : Text
  context : Text
  loc : SemindexSourceLocation
  isLocal : Bool
  definition : Bool
  properties : BitVec 64 := 0

structure SemindexUse where
  kind : UseKind
  symbolKind : SymbolKind
  mode : Nat
  name : Text
  owner : Text
  type : Text
  usr : Text
  context : Text
  contextUsr : Text := []
  usrId : Id := 0
  contextUsrId : Id := 0
  loc : SemindexSourceLocation
  isLocal : Bool

structure SemindexParameter where
  name : Text
  type : Text
  canonicalType : Text
  typeIdentity : SymbolKind × Text × Text

structure SemindexFunctionSignature where
  name : Text
  owner : Text
  usr : Text
  returnType : Text
  canonicalReturnType : Text
  parameters : List SemindexParameter
  loc : SemindexSourceLocation
  variadic : Bool

inductive Scope where
  | file | project | all
  deriving DecidableEq

inductive SemindexItem where
  | symbol (symbol : SemindexSymbol)
  | use (use : SemindexUse)
  | signature (signature : SemindexFunctionSignature)

/-- The base of a member expression: a value of a record, or a member again. -/
inductive MemberBase where
  | value (record : Option DeclId)
  | member (field : DeclId) (record : Option DeclId) (base : MemberBase)

inductive Reference where
  | decl (decl : DeclId)
  | member (field : DeclId) (base : MemberBase)
  -- a macro, a file or a symbol of the assembler
  | named (name : Text)

/-- An item offered to the index, which keeps those in scope; `token` is where it stands in the source. -/
structure Emission where
  reference : Reference
  token : SourceLocation
  item : SemindexItem
  inScope : Bool

structure Designator where
  field : Option DeclId
  loc : SourceLocation

inductive Node where
  | decl (decl : DeclId)
  | declRef (decl : DeclId) (exprLoc : SourceLocation) (isFunctionType : Bool)
  | member (field : DeclId) (arrow : Bool) (base : MemberBase) (exprLoc : SourceLocation) (isFunctionType : Bool)
  | designatedInit (designators : List Designator)
  | call (directCallee : Option DeclId) (exprLoc : SourceLocation)
  | construct (constructor : DeclId) (exprLoc : SourceLocation)
  | new (record : Option DeclId) (beginLoc : SourceLocation)
  | delete (record : Option DeclId) (beginLoc : SourceLocation)
  | paren | implicitCast | addressOf | deref | increment | assignment
  -- its parameters and its body are parts of the expression
  | lambda
  | stmt
  | typedefTypeLoc (decl : DeclId) (nameLoc : SourceLocation)
  | recordTypeLoc (decl : DeclId) (isDefinition : Bool) (nameLoc : SourceLocation)
  | enumTypeLoc (decl : DeclId) (isDefinition : Bool) (nameLoc : SourceLocation)
  | typeLoc

-- which part of the node around it a node is
inductive Slot where
  | callee | left | base | other
  deriving DecidableEq

structure Part where
  slot : Slot
  node : Node

section Access

def isCallCallee : Slot → List Part → Bool
  | _, [] => false
  | slot, parent::around =>
    match parent.node with
    | .call _ _ => slot = .callee
    | .paren | .implicitCast | .deref | .addressOf => isCallCallee parent.slot around
    | _ => false

def isDirectCallCallee (slot : Slot) (around : List Part) : Bool := isCallCallee slot around

def isPointerReadOperand : Slot → List Part → Bool
  | _, [] => false
  | slot, parent::around =>
    match parent.node with
    | .deref => true
    | .member _ arrow _ _ _ => arrow && slot = .base
    | .paren | .implicitCast => isPointerReadOperand parent.slot around
    | _ => false

def classifyUse : Slot → List Part → UseKind
  | _, [] => .read
  | slot, parent::around =>
    match parent.node with
    | .addressOf => .addr
    | .increment => .write
    | .assignment => if slot = .left then .write else .read
    | .paren | .implicitCast => classifyUse parent.slot around
    | _ => .read

def modeReadAddress : Nat := 1
def modeWriteAddress : Nat := 2
def modeReadValue : Nat := 4
def modeWriteValue : Nat := 8
def modeReadPointer : Nat := 16

def accessModeForUse (kind : UseKind) (isFunctionType : Bool) (slot : Slot) (around : List Part) : Nat :=
  match kind with
  | .addr => modeReadAddress ||| modeWriteAddress
  | .write => modeWriteValue
  | .call => modeReadPointer
  | .read =>
    if isFunctionType || isCallCallee slot around || isPointerReadOperand slot around then modeReadPointer
    else modeReadValue

end Access

section Locations

def displayColumn (line : List UInt8) : Nat :=
  line.foldl (fun column byte => if byte = 9 then ((column - 1) / 8 + 1) * 8 + 1 else column + 1) 1

variable (sm : SourceManager)

def SourceManager.location (loc : SourceLocation) : SemindexSourceLocation :=
  match sm.presumed loc with
  | none => ⟨"<invalid>".toList,0,0⟩
  | some p => ⟨p.file,p.line,p.column⟩

def SourceManager.displayColumnForLoc (loc : SourceLocation) : Nat :=
  match sm.characterData (sm.spelling loc) with
  | none => ((sm.presumed loc).map PresumedLoc.column).getD 0
  | some (buffer,offset) => displayColumn (lineBefore buffer offset)

def SourceManager.displayLocation (loc : SourceLocation) : SemindexSourceLocation :=
  {sm.location loc with column := sm.displayColumnForLoc loc}

def SourceManager.inScope (scope : Scope) (loc : SourceLocation) : Bool :=
  if scope = .all then true
  else if loc = 0 then false
  else if scope = .file then sm.writtenInMainFile (sm.spelling loc)
  else !sm.inPredefinedFile (sm.spelling loc) && !sm.inSystemHeader (sm.spelling loc)

end Locations

structure CurrentFunction where
  name : Text
  usr : Text
  usrId : Id

def CurrentFunction.none : CurrentFunction := ⟨[],[],0⟩

/-- What the visitor remembers from node to node. -/
structure Seen where
  functionSymbols : List DeclId
  typeUses : List (DeclId × SourceLocation × Text)
  indirectFields : List (DeclId × DeclId)

structure Visitor where
  ast : Ast
  scope : Scope
  details : Bool
  includeLocal : Bool
  -- `xxh3_64bits`
  hash : Text → Id

section Hooks
variable (v : Visitor) (current : CurrentFunction)

def Visitor.usrId (usr : Text) : Id := if usr = [] then 0 else v.hash usr

def Visitor.addSymbolInScope (d : DeclId) (token : SourceLocation) (s : SemindexSymbol) (loc : SourceLocation) :
    Emission := ⟨.decl d,token,.symbol s,v.ast.sm.inScope v.scope loc⟩

def Visitor.detailedUSR (d : DeclId) : Text := if v.details then (v.ast.decl d).usr else []

def Visitor.addValueUse (reference : Reference) (d : DeclId) (kind : UseKind) (mode : Nat) (context : Text)
    (loc : SourceLocation) (isLocal : Bool) : Emission :=
  let info := v.ast.valueInfo v.details d
  let spelling := v.ast.sm.spelling loc
  ⟨reference,spelling,.use
    { kind, symbolKind := info.kind, mode, name := info.name, owner := info.owner, type := info.type,
      usr := info.usr, context, loc := v.ast.sm.location spelling, isLocal },
    v.ast.sm.inScope v.scope spelling⟩

def Visitor.addFunctionCall (d : DeclId) (loc : SourceLocation) : List Emission :=
  if loc = 0 then []
  else
    let u : SemindexUse :=
      { kind := .call, symbolKind := .function, mode := modeReadPointer, name := [], owner := [], type := [], usr := [],
        context := current.name, contextUsr := current.usr, contextUsrId := current.usrId,
        loc := v.ast.sm.location loc, isLocal := false }
    let closure := if v.ast.isMethod d then v.ast.lambdaClosureFor d else none
    match closure with
    | some closure =>
      let usr := (v.ast.decl closure).usr
      [⟨.decl closure,loc,.use {u with symbolKind := .lambda, name := "__lambda".toList, usr, usrId := v.usrId usr},
        v.ast.sm.inScope v.scope loc⟩]
    | none =>
      let info := v.ast.valueInfo v.details d
      let usr := v.ast.functionUSR d
      [⟨.decl d,loc,.use {u with name := info.name, owner := info.owner, type := info.type, usr, usrId := v.usrId usr},
        v.ast.sm.inScope v.scope loc⟩]

def Visitor.isVar (d : DeclId) : Bool :=
  match (v.ast.decl d).declClass with
  | .var _ => true
  | _ => false

def Visitor.aliasTarget (d : DeclId) (attr : AliasAttr) : Option DeclId :=
  (v.ast.named attr.aliasee).find? (fun target =>
    (v.ast.decl target).canonical ≠ (v.ast.decl d).canonical &&
      ((v.ast.isFunction d && v.ast.isFunction target) || (v.isVar d && v.isVar target)))

def textFind : Text → Text → Option Nat
  | [], part => if part = [] then some 0 else none
  | c::rest, part => if part.isPrefixOf (c::rest) then some 0 else (textFind rest part).map (· + 1)

def Visitor.aliasLocation (attr : AliasAttr) : SourceLocation :=
  if v.ast.sm.isMacro attr.location then v.ast.sm.expansion attr.location
  else match textFind attr.rangeText attr.aliasee with
    | some offset => attr.rangeBegin + offset
    | none => attr.location

def Visitor.addAliasUse (d : DeclId) : List Emission :=
  match (v.ast.decl d).aliasAttr with
  | none => []
  | some attr =>
    match v.aliasTarget d attr with
    | none => []
    | some target =>
      [v.addValueUse (.decl target) target .addr (modeReadAddress ||| modeWriteAddress) []
        (v.aliasLocation attr) false]

def Visitor.cleanupLocation (cleanup : CleanupAttr) : SourceLocation :=
  let sm := v.ast.sm
  let argument := if cleanup.argument = 0 then cleanup.location else cleanup.argument
  let spelling := sm.spelling argument
  let first := sm.expansion cleanup.declBegin
  let last := sm.expansion cleanup.declEnd
  if spelling ≠ 0 ∧ first ≠ 0 ∧ last ≠ 0 ∧ sm.pointWithin spelling first last then spelling
  else sm.expansion argument

def Visitor.isNonDefinitionParameter (d : DeclId) (var : VarDecl) : Bool :=
  var.isParameter && !((v.ast.declContext d).bind v.ast.function?).any FunctionDecl.hasBody

end Hooks

section Anonymous
variable (v : Visitor) (current : CurrentFunction)

def Ast.anonymousRecordFields (ast : Ast) : Nat → DeclId → List DeclId
  | 0, _ => []
  | fuel+1, d => ((ast.decl d).fields.filter ast.isField).flatMap (fun field =>
      let inner := (ast.decl field).fieldRecord
      if ast.isAnonymousRecord inner && ast.getName field = [] then
        (inner.map (anonymousRecordFields ast fuel)).getD []
      else if ast.getName field = [] then [] else [field])

def Visitor.anonymousRecordField (owner : Text) (field : DeclId) : Emission :=
  let d := v.ast.decl field
  let type := v.ast.valueType field
  let info := match d.declClass with
    | .field f => f.info
    | _ => none
  v.addSymbolInScope field d.location
    { kind := .field, name := d.name, owner, type := (type.map v.ast.stableTypeName).getD [],
      canonicalType := (type.map v.ast.canonicalTypeName).getD [], typeIdentity := v.ast.typeIdentity info,
      usr := d.usr, context := [], loc := v.ast.sm.displayLocation d.location, isLocal := false,
      definition := true } d.location

def Visitor.addAnonymousRecordFields (d : DeclId) (owner : Text) : List Emission :=
  (v.ast.anonymousRecordFields (v.ast.nesting d + 1) d).map (v.anonymousRecordField owner)

def Visitor.addAnonymousRecordSymbols (d : DeclId) (name : Text) : List Emission :=
  let lambda := v.ast.isLambdaClosure d
  let brace := ((v.ast.record? d).map RecordDecl.braceBegin).getD 0
  let loc := (v.ast.decl d).location
  let start := if brace ≠ 0 then brace else loc
  v.addSymbolInScope d start
    { kind := if lambda then .lambda else v.ast.recordKindForDecl d
      name := if lambda then "__lambda".toList else name
      isLocal := lambda && current.name ≠ []
      owner := [], type := [], usr := (v.ast.decl d).usr, context := []
      loc := v.ast.sm.displayLocation start, definition := true } loc ::
    if lambda then [] else v.addAnonymousRecordFields d name

end Anonymous

section Declarations
variable (v : Visitor) (current : CurrentFunction) (seen : Seen) (id : DeclId)

-- the anonymous record that is named after the variable
def Visitor.variableRecord (var : VarDecl) : Option DeclId :=
  if var.type.isTypedef || var.info.any TypeSourceInfo.writtenAsTypedef then none
  else var.type.record.filter (fun r => v.ast.isAnonymousRecord (some r))

def Visitor.variableTypeName (var : VarDecl) : Text :=
  match v.variableRecord var with
  | some r => v.ast.typeNameForRecord r (v.ast.anonymousRecordName id)
  | none => v.ast.stableTypeName var.type

def Visitor.variableSymbol (var : VarDecl) : Emission :=
  let d := v.ast.decl id
  v.addSymbolInScope id d.location
    { kind := .var, name := d.name, owner := [], type := v.variableTypeName id var,
      canonicalType := v.ast.canonicalTypeName var.type, usr := d.usr, context := current.name,
      loc := v.ast.sm.location d.location, isLocal := current.name ≠ [], definition := true } d.location

def Visitor.variableWrite (var : VarDecl) : Emission :=
  let d := v.ast.decl id
  ⟨.decl id,d.location,.use
    { kind := .write, symbolKind := .var, mode := modeWriteValue, name := d.name, owner := [],
      type := v.variableTypeName id var, usr := v.detailedUSR id, context := current.name,
      loc := v.ast.sm.location d.location, isLocal := current.name ≠ [] },v.ast.sm.inScope v.scope d.location⟩

def Visitor.addCleanupCall (var : VarDecl) : List Emission :=
  match var.cleanup with
  | none => []
  | some cleanup => v.addFunctionCall current cleanup.function (v.cleanupLocation cleanup)

def Visitor.skipsVariable (var : VarDecl) : Bool :=
  (v.ast.decl id).name = [] || v.isNonDefinitionParameter id var || (!v.includeLocal && current.name ≠ [])

def Visitor.visitVarDecl (var : VarDecl) : List Emission :=
  v.addAliasUse id ++ v.addCleanupCall current var ++
    if v.skipsVariable current id var then []
    else (match v.variableRecord var with
        | some r => v.addAnonymousRecordSymbols current r (v.ast.anonymousRecordName id)
        | none => []) ++
      v.variableSymbol current id var :: if var.hasInit then [v.variableWrite current id var] else []

def Visitor.fieldSymbol (field : FieldDecl) : Emission :=
  let d := v.ast.decl id
  v.addSymbolInScope id d.location
    { kind := v.ast.symbolKindForDecl id, name := d.name, owner := v.ast.getOwnerName id,
      type := v.ast.stableTypeName field.type, canonicalType := v.ast.canonicalTypeName field.type,
      typeIdentity := v.ast.typeIdentity field.info, usr := d.usr, context := [],
      loc := v.ast.sm.location d.location, isLocal := false, definition := true } d.location

def Visitor.visitFieldDecl (field : FieldDecl) : List Emission :=
  if v.ast.isAnonymousRecord (v.ast.declContext id) then []
  else if v.ast.isSpecialization (v.ast.declContext id) then []
  else [v.fieldSymbol id field]

def Visitor.typedefRecord (underlying : QualType) : Option DeclId :=
  underlying.record.filter (fun r => v.ast.isAnonymousRecord (some r))

def Visitor.typedefSymbol (underlying : QualType) : Emission :=
  let d := v.ast.decl id
  v.addSymbolInScope id d.location
    { kind := .typedef, name := d.name, owner := [], type := v.ast.typeNameForTypedef id underlying,
      canonicalType := v.ast.canonicalTypeName underlying, usr := d.usr, context := current.name,
      loc := v.ast.sm.location d.location, isLocal := current.name ≠ [], definition := true } d.location

def Visitor.visitTypedefNameDecl (underlying : QualType) : List Emission :=
  if !v.includeLocal && current.name ≠ [] then []
  else (match v.typedefRecord underlying with
      | some r => v.addAnonymousRecordSymbols current r (v.ast.anonymousRecordName id)
      | none => []) ++ [v.typedefSymbol current id underlying]

-- the symbol of a type that has a name
def Visitor.typeSymbol (kind : SymbolKind) (name : Text) : Emission :=
  let d := v.ast.decl id
  v.addSymbolInScope id d.location
    { kind, name, owner := [], type := [], usr := d.usr, context := [], loc := v.ast.sm.location d.location,
      isLocal := false, definition := true } d.location

def Visitor.addIndirectField (field : DeclId) : Emission :=
  let d := v.ast.decl field
  let info := v.ast.valueInfo v.details field
  v.addSymbolInScope field d.location
    { kind := info.kind, name := info.name, owner := info.owner, type := info.type,
      canonicalType := info.canonicalType, usr := info.usr, context := [], loc := v.ast.sm.location d.location,
      isLocal := false, definition := true } d.location

-- the indirect fields of the record, under the fields they stand for
def Visitor.indirectMembers (record : RecordDecl) : List (DeclId × DeclId) :=
  record.decls.filterMap (fun member => match (v.ast.decl member).declClass with
    | .indirectField f => some (f.anonField,member)
    | _ => none)

def Visitor.skipsRecord (record : RecordDecl) : Bool :=
  !record.isDefinition || v.ast.isAnonymousRecord (some id) || v.ast.isSpecialization (some id)

def Visitor.visitRecordDecl (record : RecordDecl) : List Emission × Seen :=
  if v.skipsRecord id record then ([],seen)
  else (v.typeSymbol id (v.ast.recordKindForDecl id) (v.ast.qualifiedRecordName id) ::
      (v.indirectMembers record).map (fun entry => v.addIndirectField entry.2),
    {seen with indirectFields := seen.indirectFields ++ v.indirectMembers record})

def Visitor.visitEnumDecl (enum : EnumDecl) : List Emission :=
  if !enum.isDefinition || (v.ast.decl id).name = [] then []
  else [v.typeSymbol id .enum (v.ast.qualifiedEnumName id)]

def Visitor.enumConstantSymbol (type : QualType) : Emission :=
  let d := v.ast.decl id
  v.addSymbolInScope id d.location
    { kind := .enumConstant, name := d.name, owner := [], type := v.ast.stableTypeName type,
      canonicalType := v.ast.canonicalTypeName type, usr := d.usr, context := [],
      loc := v.ast.sm.location d.location, isLocal := false, definition := true } d.location

def Visitor.visitEnumConstantDecl (type : QualType) : List Emission := [v.enumConstantSymbol id type]

def propertyConstructor : BitVec 64 := 1
def propertyDestructor : BitVec 64 := 2

def Visitor.functionProperties (function : FunctionDecl) : BitVec 64 :=
  (function.redecls.filterMap v.ast.function?).foldl (fun properties declaration =>
    let properties := if declaration.constructorAttr then properties ||| propertyConstructor else properties
    let properties := if declaration.destructorAttr then properties ||| propertyDestructor else properties
    let properties :=
      if declaration.functionClass = .constructor then properties ||| propertyConstructor else properties
    if declaration.functionClass = .destructor then properties ||| propertyDestructor else properties) 0

def Visitor.functionSymbol (function : FunctionDecl) : Emission :=
  let d := v.ast.decl id
  v.addSymbolInScope id d.location
    { kind := .function, name := d.name, owner := v.ast.getOwnerName id, type := v.ast.stableTypeName function.type,
      canonicalType := v.ast.canonicalTypeName function.type, usr := v.ast.functionUSR id, context := [],
      loc := v.ast.sm.location d.location, isLocal := false, definition := function.isDefinition,
      properties := v.functionProperties function } d.location

def Visitor.parameter (id : DeclId) : SemindexParameter :=
  let type := v.ast.valueType id
  let info := match (v.ast.decl id).declClass with
    | .var parameter => parameter.info
    | _ => none
  { name := v.ast.getName id, type := (type.map v.ast.stableTypeName).getD [],
    canonicalType := (type.map v.ast.canonicalTypeName).getD [], typeIdentity := v.ast.typeIdentity info }

def Visitor.functionSignature (function : FunctionDecl) : Emission :=
  let d := v.ast.decl id
  ⟨.decl id,d.location,.signature
    { name := d.name, owner := v.ast.getOwnerName id, usr := v.ast.functionUSR id,
      returnType := v.ast.stableTypeName function.returnType,
      canonicalReturnType := v.ast.canonicalTypeName function.returnType,
      parameters := function.parameters.map v.parameter, loc := v.ast.sm.location d.location,
      variadic := function.variadic },v.ast.sm.inScope v.scope d.location⟩

def Visitor.skipsFunction (function : FunctionDecl) : Bool :=
  (v.ast.isMethod id && v.ast.isSpecialization (v.ast.declContext id)) ||
    (!function.isDefinition && !function.hasPrototype) || (!function.isDefinition && function.hasDefinition)

def Visitor.visitFunctionDecl (function : FunctionDecl) : List Emission × Seen :=
  let canonical := (v.ast.decl id).canonical
  if v.skipsFunction id function || seen.functionSymbols.contains canonical then (v.addAliasUse id,seen)
  else (v.addAliasUse id ++ [v.functionSymbol id function,v.functionSignature id function],
    {seen with functionSymbols := canonical::seen.functionSymbols})

def Visitor.visitDecl : List Emission × Seen :=
  match (v.ast.decl id).declClass with
  | .var var => (v.visitVarDecl current id var,seen)
  | .field field => (v.visitFieldDecl id field,seen)
  | .typedef underlying => (v.visitTypedefNameDecl current id underlying,seen)
  | .record record => v.visitRecordDecl seen id record
  | .enum enum => (v.visitEnumDecl id enum,seen)
  | .enumConstant type => (v.visitEnumConstantDecl id type,seen)
  | .function function => v.visitFunctionDecl seen id function
  | .indirectField _ | .namespace | .block | .other => ([],seen)

end Declarations

section Expressions
variable (v : Visitor) (current : CurrentFunction) (seen : Seen) (slot : Slot) (around : List Part)

def Visitor.referenceLocal (d : DeclId) : Bool := current.name ≠ [] && (v.ast.decl d).linkage ≠ .external

def Visitor.skipsReference (d : DeclId) : Bool :=
  (v.referenceLocal current d && !v.includeLocal) || (v.ast.isFunction d && isDirectCallCallee slot around)

def Visitor.visitDeclRefExpr (d : DeclId) (exprLoc : SourceLocation) (isFunctionType : Bool) : List Emission :=
  let use (kind : UseKind) : Emission := v.addValueUse (.decl d) d kind
    (accessModeForUse kind isFunctionType slot around) current.name exprLoc (v.referenceLocal current d)
  if v.skipsReference current slot around d then []
  else use (classifyUse slot around) :: if !v.ast.isFunction d && isCallCallee slot around then [use .call] else []

def memberBaseRecord : MemberBase → Option DeclId
  | .value record => record
  | .member _ _ base => memberBaseRecord base

def Visitor.promotedFieldFor (field : DeclId) (owner : Option DeclId) : Option DeclId :=
  ((seen.indirectFields.filter (fun entry => entry.1 = field)).map Prod.snd).find? (fun indirect =>
    v.ast.declContext indirect = owner)

def Visitor.usedMember (field : DeclId) (base : MemberBase) : DeclId :=
  if v.ast.isField field && v.ast.isAnonymousRecord (v.ast.declContext field) then
    (v.promotedFieldFor seen field (memberBaseRecord base)).getD field
  else field

def Visitor.visitMemberExpr (field : DeclId) (base : MemberBase) (exprLoc : SourceLocation)
    (isFunctionType : Bool) : List Emission :=
  let kind := classifyUse slot around
  if v.ast.isField field && v.ast.getName field = [] then []
  else [v.addValueUse (.member field base) (v.usedMember seen field base) kind
    (accessModeForUse kind isFunctionType slot around) current.name exprLoc false]

def Visitor.initializedRecordFor : Option DeclId :=
  (around.findSome? (fun part => match part.node with
    | .decl d => match (v.ast.decl d).declClass with
      | .var var => some var.type.record
      | _ => none
    | _ => none)).getD none

def Visitor.chain (indirect : DeclId) : List DeclId :=
  match (v.ast.decl indirect).declClass with
  | .indirectField f => f.chain
  | _ => []

def Visitor.anonField (indirect : DeclId) : DeclId :=
  match (v.ast.decl indirect).declClass with
  | .indirectField f => f.anonField
  | _ => indirect

def Visitor.promotedFieldIsVisible (indirect initializedRecord : DeclId) : Bool :=
  v.ast.declContext indirect = some initializedRecord ||
    ((seen.indirectFields.filter (fun entry => entry.1 = v.anonField indirect)).map Prod.snd).any (fun outer =>
      v.ast.declContext outer = some initializedRecord && (v.chain indirect).isSuffixOf (v.chain outer))

def Visitor.addPromotedFieldUses (field initializedRecord : DeclId) (loc : SourceLocation) : List Emission :=
  (((seen.indirectFields.filter (fun entry => entry.1 = field)).map Prod.snd).filter (fun indirect =>
    v.promotedFieldIsVisible seen indirect initializedRecord)).map (fun indirect =>
      v.addValueUse (.decl indirect) indirect .write modeWriteValue current.name loc false)

def Visitor.visitDesignatedInitExpr (designators : List Designator) : List Emission :=
  designators.flatMap (fun designator => match designator.field.filter v.ast.isField with
    | none => []
    | some d =>
      (if v.ast.isAnonymousRecord (v.ast.declContext d) then []
        else [v.addValueUse (.decl d) d .write modeWriteValue current.name designator.loc false]) ++
      (match v.initializedRecordFor around with
        | none => []
        | some record => v.addPromotedFieldUses current seen d record designator.loc))

def Visitor.isFunctionOrMethod (d : Option DeclId) : Bool :=
  d.any (fun d => match (v.ast.decl d).declClass with
    | .function _ | .block => true
    | _ => false)

def Visitor.addTypeUse (d : DeclId) (kind : SymbolKind) (loc : SourceLocation) (type : Text) : List Emission × Seen :=
  let isLocal := v.isFunctionOrMethod (v.ast.declContext d)
  let spelling := v.ast.sm.spelling loc
  let key := ((v.ast.decl d).canonical,spelling,current.name)
  if loc = 0 then ([],seen)
  else if !v.includeLocal && isLocal then ([],seen)
  else if !v.ast.sm.inScope v.scope spelling then ([],seen)
  else if seen.typeUses.contains key then ([],seen)
  else ([⟨.decl d,spelling,.use
      { kind := .read, symbolKind := kind, mode := modeReadValue, name := v.ast.typeIdentityName d, owner := [],
        type, usr := v.detailedUSR d, context := current.name, loc := v.ast.sm.location spelling, isLocal },true⟩],
    {seen with typeUses := key::seen.typeUses})

-- the type of a new or delete expression
def Visitor.addRecordUse (record : Option DeclId) (loc : SourceLocation) : List Emission × Seen :=
  match record with
  | none => ([],seen)
  | some r => v.addTypeUse current seen r (v.ast.recordKindForDecl r) loc []

def Visitor.visit (node : Node) : List Emission × Seen :=
  match node with
  | .decl d => v.visitDecl current seen d
  | .declRef d exprLoc isFunctionType => (v.visitDeclRefExpr current slot around d exprLoc isFunctionType,seen)
  | .member field _ base exprLoc isFunctionType =>
    (v.visitMemberExpr current seen slot around field base exprLoc isFunctionType,seen)
  | .designatedInit designators => (v.visitDesignatedInitExpr current seen around designators,seen)
  | .call none _ => ([],seen)
  | .call (some callee) exprLoc => (v.addFunctionCall current callee (v.ast.sm.spelling exprLoc),seen)
  | .construct constructor exprLoc => (v.addFunctionCall current constructor (v.ast.sm.spelling exprLoc),seen)
  | .new record beginLoc | .delete record beginLoc => v.addRecordUse current seen record beginLoc
  | .typedefTypeLoc d nameLoc =>
    let type := match (v.ast.decl d).declClass with
      | .typedef underlying => if v.details then v.ast.typeNameForTypedef d underlying else []
      | _ => []
    v.addTypeUse current seen d .typedef nameLoc type
  | .recordTypeLoc d isDefinition nameLoc =>
    if isDefinition || v.ast.isAnonymousRecord (some d) then ([],seen)
    else v.addTypeUse current seen d (v.ast.recordKindForDecl d) nameLoc []
  | .enumTypeLoc d isDefinition nameLoc =>
    if isDefinition || v.ast.getName d = [] then ([],seen)
    else v.addTypeUse current seen d .enum nameLoc []
  | .paren | .implicitCast | .addressOf | .deref | .increment | .assignment | .lambda | .stmt | .typeLoc =>
    ([],seen)

end Expressions

section Traversal
variable (v : Visitor)

-- only a plain function is dispatched to `TraverseFunctionDecl`; methods have hooks of their own
def Visitor.enter (part : Part) (current : CurrentFunction) : CurrentFunction :=
  match part.node with
  | .decl d => match v.ast.function? d with
    | some function =>
      if function.functionClass = .plain then
        let usr := if function.hasBody then v.ast.functionUSR d else []
        ⟨v.ast.getName d,usr,v.usrId usr⟩
      else current
    | none => current
  | _ => current

def Visitor.visitPart (current : CurrentFunction) (around : List Part) (part : Part)
    (s : Seen × List Emission) : Seen × List Emission :=
  let out := v.visit current s.1 part.slot around part.node
  (out.2,s.2 ++ out.1)

def Seen.empty : Seen := ⟨[],[],[]⟩

/-- `HandleTranslationUnit`: the items offered, in their order. -/
def Visitor.traverseDecl (unit : Forest Part) : List Emission :=
  (unit.traverse v.enter v.visitPart [] (CurrentFunction.none,Seen.empty,[])).2.2

end Traversal
end Semindex.Parser
