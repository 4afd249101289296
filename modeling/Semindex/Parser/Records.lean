import Semindex.Parser.Visitor
import Semindex.IndexDb.Staging

/-! `rebuildRecords`: the items in scope as records of the index, and the columns
under which a record is stored. -/
namespace Semindex.Parser
open Semindex.IndexDb

def SemindexItem.file : SemindexItem → Text
  | .symbol s => s.loc.file
  | .use u => u.loc.file
  | .signature g => g.loc.file

-- a `std::set` of names
def internFile (files : List Text) (file : Text) : List Text :=
  if files.contains file then files else files.orderedInsert (· ≤ ·) file

def internedFiles (offered : List Emission) : List Text :=
  offered.foldl (fun files e => internFile files e.item.file) []

theorem mem_internFile {files : List Text} {file other : Text} :
    other ∈ internFile files file ↔ other = file ∨ other ∈ files := by
  unfold internFile
  split
  · rename_i listed
    constructor
    · exact .inr
    · intro found
      rcases found with rfl | found
      · simpa using listed
      · exact found
  · exact List.mem_orderedInsert _

theorem mem_internedFiles {offered : List Emission} {e : Emission} (member : e ∈ offered) :
    e.item.file ∈ internedFiles offered := by
  have kept (rest : List Emission) (files : List Text) (file : Text) (found : file ∈ files) :
      file ∈ rest.foldl (fun files e => internFile files e.item.file) files := by
    induction rest generalizing files with
    | nil => exact found
    | cons first rest ih => exact ih _ (mem_internFile.mpr (.inr found))
  obtain ⟨before,after,rfl⟩ := List.append_of_mem member
  rw [internedFiles,List.foldl_append,List.foldl_cons]
  exact kept after _ _ (mem_internFile.mpr (.inl rfl))

section Records
variable (hash : Text → Id) (files : List Text)

def SemindexSymbol.record (s : SemindexSymbol) : Symbol where
  kind := s.kind
  name := s.name
  owner := s.owner
  type := s.type
  canonicalType := s.canonicalType
  typeKind := s.typeIdentity.1
  typeSymbol := s.typeIdentity.2.1
  typeUsrId := usrHash hash s.typeIdentity.2.2
  usr := s.usr
  usrId := usrHash hash s.usr
  context := s.context
  file := s.loc.file
  fileIndex := files.idxOf s.loc.file
  line := s.loc.line
  column := s.loc.column
  isLocal := s.isLocal
  definition := s.definition
  properties := s.properties

def SemindexUse.record (u : SemindexUse) : Use where
  kind := u.kind
  symbolKind := u.symbolKind
  mode := u.mode
  name := u.name
  owner := u.owner
  usr := u.usr
  context := u.context
  contextUsr := u.contextUsr
  usrId := usrHash hash u.usr
  contextUsrId := usrHash hash u.contextUsr
  file := u.loc.file
  fileIndex := files.idxOf u.loc.file
  line := u.loc.line
  column := u.loc.column
  isLocal := u.isLocal

def SemindexParameter.record (p : SemindexParameter) : Parameter where
  name := p.name
  type := p.type
  canonicalType := p.canonicalType
  typeKind := p.typeIdentity.1
  typeSymbol := p.typeIdentity.2.1
  typeUsrId := usrHash hash p.typeIdentity.2.2

def SemindexFunctionSignature.record (g : SemindexFunctionSignature) : FunctionSignature where
  name := g.name
  owner := g.owner
  usr := g.usr
  usrId := usrHash hash g.usr
  returnType := g.returnType
  canonicalReturnType := g.canonicalReturnType
  parameters := g.parameters.map (SemindexParameter.record hash)
  file := g.loc.file
  fileIndex := files.idxOf g.loc.file
  variadic := g.variadic

def keptItems (offered : List Emission) : List SemindexItem := (offered.filter Emission.inScope).map Emission.item

theorem keptItems_located {offered : List Emission} {item : SemindexItem} (member : item ∈ keptItems offered) :
    (internedFiles offered).idxOf item.file < (internedFiles offered).length := by
  obtain ⟨e,inside,rfl⟩ := List.mem_map.mp member
  exact List.idxOf_lt_length_of_mem (mem_internedFiles (List.mem_of_mem_filter inside))

def rebuildRecords (offered : List Emission) : Index where
  files := internedFiles offered
  symbols := (keptItems offered).filterMap (fun
    | .symbol s => some (s.record hash (internedFiles offered))
    | _ => none)
  uses := (keptItems offered).filterMap (fun
    | .use u => some (u.record hash (internedFiles offered))
    | _ => none)
  functionSignatures := (keptItems offered).filterMap (fun
    | .signature g => some (g.record hash (internedFiles offered))
    | _ => none)
  symbols_located := by
    intro s member
    obtain ⟨item,listed,same⟩ := List.mem_filterMap.mp member
    cases item with
    | symbol s => exact Option.some.inj same ▸ keptItems_located listed
    | use u => cases same
    | signature g => cases same
  uses_located := by
    intro u member
    obtain ⟨item,listed,same⟩ := List.mem_filterMap.mp member
    cases item with
    | symbol s => cases same
    | use u => exact Option.some.inj same ▸ keptItems_located listed
    | signature g => cases same
  signatures_located := by
    intro g member
    obtain ⟨item,listed,same⟩ := List.mem_filterMap.mp member
    cases item with
    | symbol s => cases same
    | use u => cases same
    | signature g => exact Option.some.inj same ▸ keptItems_located listed

/-- The columns of `records` that do not depend on the file; a signature has none. -/
def SemindexItem.columns : SemindexItem → Option (RecordKey × RecordValue)
  | .symbol s => some (
    { symbol := qualifiedName s.owner s.name, record := 0, action := s.definition.toNat, kind := s.kind.code,
      mode := 0, line := s.loc.line, column := s.loc.column },
    { context := s.context, usrId := optionalId s.usr (usrHash hash s.usr), contextUsrId := none,
      isLocal := s.isLocal })
  | .use u => some (
    { symbol := qualifiedName u.owner u.name, record := 1, action := u.kind.code, kind := u.symbolKind.code,
      mode := u.mode, line := u.loc.line, column := u.loc.column },
    { context := u.context, usrId := optionalId u.usr (usrHash hash u.usr),
      contextUsrId := optionalId u.contextUsr (usrHash hash u.contextUsr), isLocal := u.isLocal })
  | .signature _ => none

/-- They are the columns of the rows the writer stages for the index. -/
theorem recordRows_columns (paths : StoredPaths) (offered : List Emission) :
    (rebuildRecords hash offered).items.flatMap (fun item => (recordRows paths item).map
      (fun row => (row.1.2,row.2))) =
    (keptItems offered).filterMap (fun item => match item with
      | .symbol _ => item.columns hash
      | _ => none) ++
    (keptItems offered).filterMap (fun item => match item with
      | .use _ => item.columns hash
      | _ => none) := by
  have symbols (items : List SemindexItem) : (items.filterMap (fun
      | .symbol s => some (s.record hash (internedFiles offered))
      | _ => none)).flatMap (fun s => (recordRows paths (.symbol s)).map (fun row => (row.1.2,row.2))) =
      items.filterMap (fun item => match item with
        | .symbol _ => item.columns hash
        | _ => none) := by
    induction items with
    | nil => rfl
    | cons item items ih =>
      cases item with
      | symbol s => simpa [SemindexItem.columns,recordRows,symbolRecord,SemindexSymbol.record] using ih
      | use u => simpa using ih
      | signature g => simpa using ih
  have uses (items : List SemindexItem) : (items.filterMap (fun
      | .use u => some (u.record hash (internedFiles offered))
      | _ => none)).flatMap (fun u => (recordRows paths (.use u)).map (fun row => (row.1.2,row.2))) =
      items.filterMap (fun item => match item with
        | .use _ => item.columns hash
        | _ => none) := by
    induction items with
    | nil => rfl
    | cons item items ih =>
      cases item with
      | symbol s => simpa using ih
      | use u => simpa [SemindexItem.columns,recordRows,useRecord,SemindexUse.record] using ih
      | signature g => simpa using ih
  have signatures (gs : List FunctionSignature) :
      gs.flatMap (fun g => (recordRows paths (.signature g)).map (fun row => (row.1.2,row.2))) = [] := by
    simp [recordRows]
  unfold Index.items rebuildRecords
  simp only [List.flatMap_append,List.flatMap_map,signatures,List.append_nil]
  exact congrArg₂ (· ++ ·) (symbols _) (uses _)

end Records
end Semindex.Parser
