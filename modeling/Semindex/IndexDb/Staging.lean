import Semindex.IndexDb.Schema
import Semindex.Support.Repository

/-! Private staging: `init_stored_paths`, `stage_files` and `stage_records`. The
last fills the staging tables item by item; `stageRecords_records` and its
siblings give the rows as one sequence of insertions, which is all the later
modules use. -/
namespace Semindex.IndexDb
open Semindex.Relational

structure StoreRequest where
  index : Index
  mainFile : Option Text
  variant : Text
  repositoryRoot : Option Text
  gitCommit : Option Text
  includeLocal : Bool

/-- The lookups of a store whose failure is not an exit: of the root, of a `.git` on the way to it, of the resolved
path and of the `stat` of the main file or of a file of the list. -/
inductive Lookup where
  | root
  | marker (path : Text)
  | path (file : Option Nat)
  | stat (file : Option Nat)
  deriving DecidableEq

/-- One `index_db_store` call together with what its process sees of the file system. -/
structure Job where
  fs : FileSystem
  request : StoreRequest
  -- the lookups that fail, which nothing reports
  lost : Lookup → Bool := fun _ => false

structure StoredPaths where
  mainFile : Option Text
  files : List Text

def qualifiedName (owner name : Text) : Text :=
  if owner = [] then name
  else if "::".toList <:+: owner then owner ++ "::".toList ++ name
  else owner ++ ".".toList ++ name

@[simp] theorem qualifiedName_nil (name : Text) : qualifiedName [] name = name := rfl

section Files
variable (blake3 : List UInt8 → Fingerprint) (job : Job)

def Job.fingerprints : List FileFingerprint :=
  rebuildFingerprints blake3 job.request.index job.request.includeLocal

def Job.root : Option Text :=
  if job.lost .root then none
  else match job.request.repositoryRoot with
    | some root => some root
    | none => repositoryRoot
        {job.fs with lstat := fun marker => if job.lost (.marker marker) then none else job.fs.lstat marker}
        job.request.mainFile

-- a path that is not resolved is stored as it is
def Job.pathOf (file : Option Nat) (name : Text) : Text :=
  if job.lost (.path file) then name else repositoryPath job.fs job.root name

def Job.statOf (file : Option Nat) (name : Text) : Option Stat :=
  if job.lost (.stat file) then none else job.fs.stat name

def Job.paths : StoredPaths where
  mainFile := job.request.mainFile.map (job.pathOf none)
  files := (job.fingerprints blake3).zipIdx.map (fun (fingerprint,i) => job.pathOf (some i) fingerprint.file)

def recordPath (paths : StoredPaths) (index : Nat) (fallback : Text) : Text :=
  (paths.files[index]?).getD fallback

def Job.mainStat : Option Stat := job.request.mainFile.bind (job.statOf none)

-- the row `stage_files` binds for the i-th fingerprint
def Job.stagedFile (i : Nat) (fingerprint : FileFingerprint) : StagingFile :=
  let st : Option Stat := job.statOf (some i) fingerprint.file
  let isMain : Bool := match st,job.mainStat with
    | some st,some main => st.dev = main.dev && st.ino = main.ino
    | _,_ => false
  { mtimeNs := (st.map Stat.mtimeNs).getD 0, size := (st.map Stat.size).getD 0, isMain := isMain,
    ordinal := some i, fingerprint := if isMain then none else some fingerprint.data, cached := false }

def upsertFile (files : Table Text StagingFile) (path : Text) (row : StagingFile) : Table Text StagingFile :=
  files.insert path {row with cached := ((files.lookup path).map StagingFile.cached).getD false}

def upsertMain (files : Table Text StagingFile) (path : Text) (mtimeNs size : Int) : Table Text StagingFile :=
  match files.lookup path with
  | none => files.insert path ⟨mtimeNs,size,true,none,none,false⟩
  | some row => files.insert path {row with mtimeNs, size, isMain := true, fingerprint := none}

def Job.insertFile (files : Table Text StagingFile) (entry : FileFingerprint × Nat) : Table Text StagingFile :=
  if entry.1.recordCount = 0 then files
  else upsertFile files (((job.paths blake3).files[entry.2]?).getD []) (job.stagedFile entry.2 entry.1)

def Job.insertMain (files : Table Text StagingFile) : Table Text StagingFile :=
  match (job.paths blake3).mainFile with
  | none => files
  | some path => upsertMain files path ((job.mainStat.map Stat.mtimeNs).getD 0)
      ((job.mainStat.map Stat.size).getD 0)

def Job.stagedFiles : Table Text StagingFile :=
  job.insertMain blake3 ((job.fingerprints blake3).zipIdx.foldl (job.insertFile blake3) ∅)

def Job.cacheCandidates : Nat :=
  (job.fingerprints blake3).zipIdx.countP
    (fun (fingerprint,i) => fingerprint.recordCount ≠ 0 && !(job.stagedFile i fingerprint).isMain)

-- the row of `files JOIN file_fingerprints` that both cache statements look for
def cacheHit (db : Db) (variant path : Text) (row : StagingFile) : Bool :=
  match db.files.lookup (variant,path),row.fingerprint with
  | some file,some fingerprint =>
    file.mtimeNs = row.mtimeNs && file.size = row.size &&
      (db.fileFingerprints.lookup (file.id,fingerprint)).isSome
  | _,_ => false

def markCached (db : Db) (variant : Text) (files : Table Text StagingFile) : Table Text StagingFile :=
  files.modify (fun path row =>
    if !row.isMain && row.mtimeNs ≠ 0 && cacheHit db variant path row then {row with cached := true} else row)

def cachedOrdinals (files : Table Text StagingFile) : List Nat :=
  (files.entries.filter (fun e => e.2.cached)).map (fun e => e.2.ordinal.getD 0)

/-- `stage_files` over the shared tables `db`: the staged rows and the `cached` flag of each file.
It fails where a cached row has an ordinal outside the file list. -/
def stageFiles (db : Db) : Option (Table Text StagingFile × List Bool) :=
  let files := job.stagedFiles blake3
  let count := (job.fingerprints blake3).length
  if job.cacheCandidates blake3 = 0 then some (files,List.replicate count false)
  else
    let files := markCached db job.request.variant files
    let ordinals := cachedOrdinals files
    if ordinals.all (· < count) then
      some (files,(List.range count).map (fun i => ordinals.contains i))
    else none

end Files

section Records
variable (paths : StoredPaths)

def optionalId (usr : Text) (id : Id) : Option Id := if usr = [] then none else some id

def typeKindColumn (kind : SymbolKind) (usrId : Id) : Int := if usrId = 0 then -1 else kind.code

def symbolRecord (s : Symbol) : (Text × RecordKey) × RecordValue :=
  ((recordPath paths s.fileIndex s.file,
    { symbol := qualifiedName s.owner s.name, record := 0, action := s.definition.toNat,
      kind := s.kind.code, mode := 0, line := s.line, column := s.column }),
   { context := s.context, usrId := optionalId s.usr s.usrId, contextUsrId := none, isLocal := s.isLocal })

def useRecord (u : Use) : (Text × RecordKey) × RecordValue :=
  ((recordPath paths u.fileIndex u.file,
    { symbol := qualifiedName u.owner u.name, record := 1, action := u.kind.code,
      kind := u.symbolKind.code, mode := u.mode, line := u.line, column := u.column }),
   { context := u.context, usrId := optionalId u.usr u.usrId,
     contextUsrId := optionalId u.contextUsr u.contextUsrId, isLocal := u.isLocal })

def symbolTypeRow (s : Symbol) : (Text × SymbolTypeKey) × Unit :=
  ((recordPath paths s.fileIndex s.file,
    { symbol := qualifiedName s.owner s.name, kind := s.kind.code, usrId := s.usrId,
      declaredType := s.type, canonicalType := s.canonicalType, typeSymbol := s.typeSymbol,
      typeKind := typeKindColumn s.typeKind s.typeUsrId, typeUsrId := s.typeUsrId }),())

def symbolPropertiesRow (s : Symbol) : (Text × PropertyKey) × Properties :=
  ((recordPath paths s.fileIndex s.file,⟨qualifiedName s.owner s.name,s.kind.code,s.usrId⟩),⟨s.properties⟩)

def returnTypeRow (g : FunctionSignature) : (Text × FunctionTypeKey) × FunctionTypeValue :=
  ((recordPath paths g.fileIndex g.file,
    { symbol := qualifiedName g.owner g.name, usrId := g.usrId, position := -1,
      declaredType := g.returnType, canonicalType := g.canonicalReturnType, typeSymbol := [],
      typeKind := -1, typeUsrId := 0 }),⟨[],g.variadic⟩)

def parameterRow (g : FunctionSignature) (p : Parameter) (position : Nat) :
    (Text × FunctionTypeKey) × FunctionTypeValue :=
  ((recordPath paths g.fileIndex g.file,
    { symbol := qualifiedName g.owner g.name, usrId := g.usrId, position := position,
      declaredType := p.type, canonicalType := p.canonicalType, typeSymbol := p.typeSymbol,
      typeKind := typeKindColumn p.typeKind p.typeUsrId, typeUsrId := p.typeUsrId }),⟨p.name,false⟩)

variable (includeLocal : Bool) (cached : List Bool)

def isCached (i : Nat) : Bool := (cached[i]?).getD false

def stageSymbol (st : Staging) (s : Symbol) : Staging :=
  if s.isLocal && !includeLocal then st
  else if isCached cached s.fileIndex then st
  else
    { st with
      records := Table.insertRow st.records (symbolRecord paths s)
      symbolTypes := if s.type ≠ [] ∧ s.usr ≠ [] then
        Table.insertRow st.symbolTypes (symbolTypeRow paths s) else st.symbolTypes
      symbolProperties := if s.properties ≠ 0 ∧ s.usr ≠ [] then
        Table.insertRow st.symbolProperties (symbolPropertiesRow paths s) else st.symbolProperties }

def stageUse (st : Staging) (u : Use) : Staging :=
  if u.isLocal && !includeLocal then st
  else if isCached cached u.fileIndex then st
  else {st with records := Table.insertRow st.records (useRecord paths u)}

def stageParameter (g : FunctionSignature) (st : Staging) (entry : Parameter × Nat) : Staging :=
  {st with functionTypes := Table.insertRow st.functionTypes (parameterRow paths g entry.1 entry.2)}

def stageSignature (st : Staging) (g : FunctionSignature) : Staging :=
  if g.usr = [] then st
  else if isCached cached g.fileIndex then st
  else
    let st := {st with functionTypes := Table.insertRow st.functionTypes (returnTypeRow paths g)}
    g.parameters.zipIdx.foldl (stageParameter paths g) st

def stageRecords (index : Index) (st : Staging) : Staging :=
  let st := index.symbols.foldl (stageSymbol paths includeLocal cached) st
  let st := index.uses.foldl (stageUse paths includeLocal cached) st
  index.functionSignatures.foldl (stageSignature paths cached) st

def stageItem (st : Staging) : Item → Staging
  | .symbol s => stageSymbol paths includeLocal cached st s
  | .use u => stageUse paths includeLocal cached st u
  | .signature g => stageSignature paths cached st g

theorem stageRecords_items (index : Index) (st : Staging) :
    stageRecords paths includeLocal cached index st =
      index.items.foldl (stageItem paths includeLocal cached) st := by
  simp only [stageRecords,Index.items,List.foldl_append,List.foldl_map]
  rfl

def recordRows : Item → List ((Text × RecordKey) × RecordValue)
  | .symbol s => [symbolRecord paths s]
  | .use u => [useRecord paths u]
  | .signature _ => []

def symbolTypeRows : Item → List ((Text × SymbolTypeKey) × Unit)
  | .symbol s => if s.type ≠ [] ∧ s.usr ≠ [] then [symbolTypeRow paths s] else []
  | _ => []

def propertyRows : Item → List ((Text × PropertyKey) × Properties)
  | .symbol s => if s.properties ≠ 0 ∧ s.usr ≠ [] then [symbolPropertiesRow paths s] else []
  | _ => []

def functionTypeRows : Item → List ((Text × FunctionTypeKey) × FunctionTypeValue)
  | .signature g => if g.usr = [] then [] else
      returnTypeRow paths g :: g.parameters.zipIdx.map (fun (p,i) => parameterRow paths g p i)
  | _ => []

-- the items `stage_records` does not skip
def kept (item : Item) : Bool := item.passes includeLocal && !isCached cached item.fileIndex

end Records

section Rows
variable (paths : StoredPaths) (includeLocal : Bool) (cached : List Bool)

private theorem stageParameters (g : FunctionSignature) (entries : List (Parameter × Nat)) (st : Staging) :
    entries.foldl (stageParameter paths g) st = { st with
      functionTypes := Table.insertRows st.functionTypes
        (entries.map (fun entry => parameterRow paths g entry.1 entry.2)) } := by
  induction entries generalizing st with
  | nil => rfl
  | cons entry entries ih =>
    rw [List.foldl_cons,ih]
    rfl

private theorem insertRows_if {κ ν : Type} [DecidableEq κ] [Conflict ν] (t : Table κ ν) (p : Prop)
    [Decidable p] (row : κ × ν) :
    Table.insertRows t (if p then [row] else []) = if p then Table.insertRow t row else t := by
  split <;> rfl

private theorem stageItem_eq (st : Staging) (item : Item) :
    stageItem paths includeLocal cached st item =
      if kept includeLocal cached item then
        { st with
          records := Table.insertRows st.records (recordRows paths item)
          symbolTypes := Table.insertRows st.symbolTypes (symbolTypeRows paths item)
          functionTypes := Table.insertRows st.functionTypes (functionTypeRows paths item)
          symbolProperties := Table.insertRows st.symbolProperties (propertyRows paths item) }
      else st := by
  cases item with
  | symbol s =>
    simp only [stageItem,stageSymbol,kept,Item.passes,Item.fileIndex,recordRows,symbolTypeRows,
      functionTypeRows,propertyRows,insertRows_if]
    cases filtered : s.isLocal && !includeLocal <;> cases hit : isCached cached s.fileIndex <;> rfl
  | use u =>
    simp only [stageItem,stageUse,kept,Item.passes,Item.fileIndex,recordRows,symbolTypeRows,
      functionTypeRows,propertyRows]
    by_cases filtered : (u.isLocal && !includeLocal) = true
    · simp only [filtered,if_true,Bool.not_true,Bool.false_and,Bool.false_eq_true,if_false]
    · by_cases hit : isCached cached u.fileIndex = true <;> simp [filtered,hit,Table.insertRows]
  | signature g =>
    simp only [stageItem,stageSignature,kept,Item.passes,Item.fileIndex,functionTypeRows,stageParameters]
    by_cases anonymous : g.usr = []
    · simp only [anonymous,if_true]
      split <;> rfl
    · simp only [anonymous,if_false]
      cases hit : isCached cached g.fileIndex <;> rfl

private theorem insertRows_append {κ ν : Type} [DecidableEq κ] [Conflict ν] (t : Table κ ν)
    (first second : List (κ × ν)) :
    Table.insertRows t (first ++ second) = Table.insertRows (Table.insertRows t first) second := by
  simp [Table.insertRows,List.foldl_append]

/-- Each staging table is the previous one with the rows of the staged items inserted in order. -/
theorem stageRecords_rows (index : Index) (st : Staging) :
    stageRecords paths includeLocal cached index st = { st with
      records := Table.insertRows st.records
        ((index.items.filter (kept includeLocal cached)).flatMap (recordRows paths))
      symbolTypes := Table.insertRows st.symbolTypes
        ((index.items.filter (kept includeLocal cached)).flatMap (symbolTypeRows paths))
      functionTypes := Table.insertRows st.functionTypes
        ((index.items.filter (kept includeLocal cached)).flatMap (functionTypeRows paths))
      symbolProperties := Table.insertRows st.symbolProperties
        ((index.items.filter (kept includeLocal cached)).flatMap (propertyRows paths)) } := by
  rw [stageRecords_items]
  generalize index.items = items
  induction items generalizing st with
  | nil => rfl
  | cons item items ih =>
    rw [List.foldl_cons,ih,stageItem_eq]
    cases selected : kept includeLocal cached item with
    | false => simp [selected]
    | true => simp [selected,insertRows_append]

end Rows
end Semindex.IndexDb
