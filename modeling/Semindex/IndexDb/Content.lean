import Semindex.IndexDb.Merge

/-! What the shared tables say about one file, and what a merge does to it. The
tables name a file by its row id, the staging tables by its path; `content`
forgets both, so that a merge acts on each file of its variant by itself. -/
namespace Semindex.IndexDb
open Semindex.Relational

@[ext] structure FileContent where
  stat : Option (Int × Int)
  records : RecordKey → Option RecordValue
  symbolTypes : SymbolTypeKey → Option Unit
  functionTypes : FunctionTypeKey → Option FunctionTypeValue
  symbolProperties : PropertyKey → Option Properties
  fingerprints : Fingerprint → Option Unit

def FileContent.blank : FileContent :=
  ⟨none,fun _ => none,fun _ => none,fun _ => none,fun _ => none,fun _ => none⟩

def FileContent.overlay (old new : FileContent) : FileContent where
  stat := new.stat
  records k := merge (old.records k) (new.records k)
  symbolTypes k := merge (old.symbolTypes k) (new.symbolTypes k)
  functionTypes k := merge (old.functionTypes k) (new.functionTypes k)
  symbolProperties k := merge (old.symbolProperties k) (new.symbolProperties k)
  fingerprints k := merge (old.fingerprints k) (new.fingerprints k)

abbrev Files := Table (Text × Text) FileRow

def rowsOf {κ ν : Type} [DecidableEq κ] (files : Files) (t : Table (Nat × κ) ν) (f : Text × Text) (k : κ) :
    Option ν :=
  (files.lookup f).bind (fun row => t.lookup (row.id,k))

def FileRow.stat (row : FileRow) : Int × Int := (row.mtimeNs,row.size)
def StagingFile.stat (row : StagingFile) : Int × Int := (row.mtimeNs,row.size)

def Db.content (db : Db) (f : Text × Text) : FileContent where
  stat := (db.files.lookup f).map FileRow.stat
  records := rowsOf db.files db.records f
  symbolTypes := rowsOf db.files db.symbolTypes f
  functionTypes := rowsOf db.files db.functionTypes f
  symbolProperties := rowsOf db.files db.symbolProperties f
  fingerprints := rowsOf db.files db.fileFingerprints f

def Staging.content (st : Staging) (path : Text) : FileContent where
  stat := (st.files.lookup path).map StagingFile.stat
  records k := st.records.lookup (path,k)
  symbolTypes k := st.symbolTypes.lookup (path,k)
  functionTypes k := st.functionTypes.lookup (path,k)
  symbolProperties k := st.symbolProperties.lookup (path,k)
  fingerprints k := gather (stagedFingerprints st) (path,k)

-- what is left of a file when a merge that stages `row` for it starts to insert
def FileContent.retained (old : FileContent) (row : StagingFile) : FileContent :=
  if row.isMain || old.stat ≠ some row.stat then .blank else old

def FileContent.mergeFile (old : FileContent) (row : StagingFile) (new : FileContent) : FileContent :=
  (old.retained row).overlay new

def Injective (files : Files) : Prop :=
  ∀ f g a b, files.lookup f = some a → files.lookup g = some b → a.id = b.id → f = g

def Filed {κ ν : Type} [DecidableEq κ] (files : Files) (t : Table (Nat × κ) ν) : Prop :=
  ∀ k v, t.lookup k = some v → ∃ f row, files.lookup f = some row ∧ row.id = k.1

/-- File ids are unique and every row belongs to a file. -/
structure Db.Consistent (db : Db) : Prop where
  injective : Injective db.files
  records : Filed db.files db.records
  symbolTypes : Filed db.files db.symbolTypes
  functionTypes : Filed db.files db.functionTypes
  symbolProperties : Filed db.files db.symbolProperties
  fileFingerprints : Filed db.files db.fileFingerprints

theorem empty_consistent : Db.empty.Consistent := by
  constructor
  · intro f g a b found
    simp [Db.empty] at found
  all_goals
    intro k v found
    simp [Db.empty] at found

/-- Every staged row belongs to a staged file. -/
structure Staging.Covered (st : Staging) : Prop where
  records : ∀ p k v, st.records.lookup (p,k) = some v → (st.files.lookup p).isSome
  symbolTypes : ∀ p k v, st.symbolTypes.lookup (p,k) = some v → (st.files.lookup p).isSome
  functionTypes : ∀ p k v, st.functionTypes.lookup (p,k) = some v → (st.files.lookup p).isSome
  symbolProperties : ∀ p k v, st.symbolProperties.lookup (p,k) = some v → (st.files.lookup p).isSome

private theorem le_foldr_max (ids : List Nat) (id : Nat) (member : id ∈ ids) : id ≤ ids.foldr max 0 := by
  induction ids with
  | nil => simp at member
  | cons head ids ih =>
    rcases List.mem_cons.mp member with rfl | inside
    · exact le_max_left _ _
    · exact le_trans (ih inside) (le_max_right _ _)

theorem id_lt_nextId (files : Files) (f : Text × Text) (row : FileRow) (found : files.lookup f = some row) :
    row.id < nextId files := by
  have member : (⟨f,row⟩ : Sigma fun _ : Text × Text => FileRow) ∈ files.entries :=
    AList.mem_lookup_iff.mp found
  have bound := le_foldr_max (files.entries.map (fun e => e.2.id)) row.id
    (List.mem_map.mpr ⟨_,member,rfl⟩)
  unfold nextId
  omega

theorem lookup_insertFileRow (variant : Text) (files : Files) (e : Sigma fun _ : Text => StagingFile)
    (f : Text × Text) :
    (insertFileRow variant files e).lookup f =
      if f = (variant,e.1) ∧ files.lookup f = none then some ⟨nextId files,e.2.mtimeNs,e.2.size⟩
      else files.lookup f := by
  unfold insertFileRow
  by_cases same : f = (variant,e.1)
  · subst same
    cases found : files.lookup (variant,e.1) <;> simp [found]
  · split
    · simp [same]
    · simp [same,AList.lookup_insert_ne same]

/-- The effect of `files_insert`: known files keep their row, every staged file has one. -/
structure Grown (variant : Text) (entries : List (Sigma fun _ : Text => StagingFile)) (before after : Files) :
    Prop where
  keeps : ∀ f row, before.lookup f = some row → after.lookup f = some row
  adds : ∀ f row, before.lookup f = none → after.lookup f = some row →
    f.1 = variant ∧ (∃ e ∈ entries, e.1 = f.2 ∧ row.stat = e.2.stat) ∧
      ∀ g old, before.lookup g = some old → old.id ≠ row.id
  covers : ∀ e ∈ entries, (after.lookup (variant,e.1)).isSome
  injective : Injective before → Injective after

private theorem insertFileRow_injective (variant : Text) (files : Files)
    (e : Sigma fun _ : Text => StagingFile) (unique : Injective files) :
    Injective (insertFileRow variant files e) := by
  intro f g a b atF atG same
  rw [lookup_insertFileRow] at atF atG
  split at atF <;> split at atG
  · rename_i first second
    exact first.1.trans second.1.symm
  · cases Option.some.inj atF
    have bound := id_lt_nextId files g b atG
    simp only at same
    omega
  · cases Option.some.inj atG
    have bound := id_lt_nextId files f a atF
    simp only at same
    omega
  · exact unique f g a b atF atG same

theorem filesInsert_grown (variant : Text) (entries : List (Sigma fun _ : Text => StagingFile))
    (files : Files) : Grown variant entries files (entries.foldl (insertFileRow variant) files) := by
  induction entries generalizing files with
  | nil =>
    exact ⟨fun _ _ found => found,fun f row absent found => by simp [absent] at found,by simp,fun unique => unique⟩
  | cons e entries ih =>
    have rest := ih (insertFileRow variant files e)
    rw [List.foldl_cons]
    constructor
    · intro f row found
      apply rest.keeps
      rw [lookup_insertFileRow]
      simp [found]
    · intro f row absent found
      cases middle : (insertFileRow variant files e).lookup f with
      | none =>
        obtain ⟨here,⟨entry,member,path,stat⟩,fresh⟩ := rest.adds f row middle found
        refine ⟨here,⟨entry,by simp [member],path,stat⟩,?_⟩
        intro g old stored
        apply fresh g old
        rw [lookup_insertFileRow]
        simp [stored]
      | some early =>
        have same : early = row := Option.some.inj ((rest.keeps f early middle).symm.trans found)
        subst same
        rw [lookup_insertFileRow] at middle
        split at middle
        · rename_i added
          cases Option.some.inj middle
          refine ⟨by rw [added.1],⟨e,by simp,by rw [added.1],rfl⟩,?_⟩
          intro g old stored
          have bound := id_lt_nextId files g old stored
          exact Nat.ne_of_lt bound
        · simp [absent] at middle
    · intro entry member
      rcases List.mem_cons.mp member with rfl | inside
      · have present : ((insertFileRow variant files entry).lookup (variant,entry.1)).isSome := by
          rw [lookup_insertFileRow]
          cases known : files.lookup (variant,entry.1) <;> simp
        obtain ⟨row,found⟩ := Option.isSome_iff_exists.mp present
        rw [rest.keeps _ _ found]
        rfl
      · exact rest.covers entry inside
    · intro unique
      exact rest.injective (insertFileRow_injective variant files e unique)

theorem supersededId_iff (variant : Text) (st : Staging) (files : Files) (unique : Injective files)
    (f : Text × Text) (row : FileRow) (found : files.lookup f = some row) :
    supersededId variant st files row.id = true ↔
      f.1 = variant ∧ ∃ staged, st.files.lookup f.2 = some staged ∧ superseded row staged = true := by
  simp only [supersededId,List.any_eq_true,Bool.and_eq_true,decide_eq_true_eq]
  constructor
  · intro ⟨⟨g,other⟩,member,⟨same,here⟩,gone⟩
    have stored : files.lookup g = some other := AList.mem_lookup_iff.mpr member
    have equal := unique g f other row stored found same
    subst equal
    cases Option.some.inj (stored.symm.trans found)
    refine ⟨here,?_⟩
    cases entry : st.files.lookup g.2 with
    | none => simp [entry] at gone
    | some staged => exact ⟨staged,rfl,by simpa [entry] using gone⟩
  · intro ⟨here,staged,entry,gone⟩
    exact ⟨⟨f,row⟩,AList.mem_lookup_iff.mp found,⟨rfl,here⟩,by simpa [entry] using gone⟩

theorem gather_filedRows {κ ν : Type} [DecidableEq κ] [Conflict ν] (variant : Text) (files : Files)
    (unique : Injective files) (f : Text × Text) (row : FileRow) (found : files.lookup f = some row)
    (rows : List ((Text × κ) × ν)) (k : κ) :
    gather (filedRows variant files rows) (row.id,k) =
      if f.1 = variant then gather rows (f.2,k) else none := by
  induction rows with
  | nil => simp [filedRows]
  | cons e rows ih =>
    unfold filedRows at ih ⊢
    cases stored : files.lookup (variant,e.1.1) with
    | none =>
      have elsewhere : f.1 = variant → e.1 ≠ (f.2,k) := by
        intro here same
        rw [same,← here] at stored
        simp [found] at stored
      rw [List.filterMap_cons_none (by simp [stored]),ih,gather_cons]
      by_cases here : f.1 = variant
      · simp [here,elsewhere here]
      · simp [here]
    | some other =>
      rw [List.filterMap_cons_some (by simp [stored] : _ = some ((other.id,e.1.2),e.2)),
        gather_cons,ih,gather_cons]
      by_cases here : f.1 = variant
      · by_cases path : e.1.1 = f.2
        · have same : other = row := by
            rw [path,← here] at stored
            exact Option.some.inj (stored.symm.trans found)
          subst same
          simp [here,Prod.ext_iff,path]
        · have apart : other.id ≠ row.id := by
            intro ids
            exact path (congrArg Prod.snd (unique _ _ _ _ stored found ids))
          simp [here,Prod.ext_iff,path,apart]
      · have apart : other.id ≠ row.id := by
          intro ids
          exact here (congrArg Prod.fst (unique _ _ _ _ stored found ids)).symm
        simp [here,apart]

theorem lookup_updated (variant : Text) (st : Staging) (files : Files) (f : Text × Text) :
    (Table.modify files (updateFileRow variant st)).lookup f =
      (files.lookup f).map (updateFileRow variant st f) := Table.lookup_modify _ _ _

theorem updateFileRow_id (variant : Text) (st : Staging) (f : Text × Text) (row : FileRow) :
    (updateFileRow variant st f row).id = row.id := by
  unfold updateFileRow
  split
  · split <;> rfl
  · rfl

section Merged
variable (variant : Text) (st : Staging) (files : Files)

def insertedFiles : Files := st.files.entries.foldl (insertFileRow variant) files

def mergedFiles : Files := Table.modify (insertedFiles variant st files) (updateFileRow variant st)

def mergedRows {κ ν : Type} [DecidableEq κ] [Conflict ν] (rows : List ((Text × κ) × ν)) (t : Table (Nat × κ) ν) :
    Table (Nat × κ) ν :=
  insertFiled variant (mergedFiles variant st files) rows
    (deleteRows (supersededId variant st (insertedFiles variant st files)) t)

-- the staged row a file of the shared tables joins with
def stagedRow (f : Text × Text) : Option StagingFile := if f.1 = variant then st.files.lookup f.2 else none

variable {variant st files}

theorem stagedRow_some {f : Text × Text} {row : StagingFile} :
    stagedRow variant st f = some row ↔ f.1 = variant ∧ st.files.lookup f.2 = some row := by
  unfold stagedRow
  split <;> simp_all

theorem updateFileRow_staged (f : Text × Text) (row : FileRow) (staged : StagingFile)
    (entry : stagedRow variant st f = some staged) :
    (updateFileRow variant st f row).stat = staged.stat := by
  obtain ⟨here,entry⟩ := stagedRow_some.mp entry
  simp [updateFileRow,entry,here,FileRow.stat,StagingFile.stat]

theorem updateFileRow_unstaged (f : Text × Text) (row : FileRow) (absent : stagedRow variant st f = none) :
    updateFileRow variant st f row = row := by
  unfold updateFileRow stagedRow at *
  cases entry : st.files.lookup f.2 with
  | none => rfl
  | some staged => simp_all

private theorem inserted_row (f : Text × Text) (row : FileRow)
    (found : (insertedFiles variant st files).lookup f = some row) :
    files.lookup f = some row ∨ (files.lookup f = none ∧
      (∃ staged, stagedRow variant st f = some staged ∧ row.stat = staged.stat) ∧
      ∀ g old, files.lookup g = some old → old.id ≠ row.id) := by
  have grown := filesInsert_grown variant st.files.entries files
  cases known : files.lookup f with
  | some old => exact .inl (congrArg some (Option.some.inj ((grown.keeps f old known).symm.trans found)))
  | none =>
    obtain ⟨here,⟨e,member,path,stat⟩,fresh⟩ := grown.adds f row known found
    refine .inr ⟨rfl,⟨e.2,?_,stat⟩,fresh⟩
    rw [stagedRow,if_pos here,← path]
    exact AList.mem_lookup_iff.mpr member

private theorem inserted_none (f : Text × Text) (absent : (insertedFiles variant st files).lookup f = none) :
    files.lookup f = none ∧ stagedRow variant st f = none := by
  have grown := filesInsert_grown variant st.files.entries files
  constructor
  · cases known : files.lookup f with
    | none => rfl
    | some row => exact absurd (grown.keeps f row known) (by rw [← insertedFiles,absent]; simp)
  · cases entry : stagedRow variant st f with
    | none => rfl
    | some staged =>
      obtain ⟨here,entry⟩ := stagedRow_some.mp entry
      have covered := grown.covers ⟨f.2,staged⟩ (AList.mem_lookup_iff.mp entry)
      subst here
      rw [← insertedFiles,Prod.mk.eta,absent] at covered
      contradiction

theorem superseded_iff (row : FileRow) (staged : StagingFile) :
    superseded row staged = true ↔ staged.isMain = true ∨ row.stat ≠ staged.stat := by
  simp only [superseded,FileRow.stat,StagingFile.stat,Bool.or_eq_true,decide_eq_true_eq,ne_eq,
    Prod.mk.injEq,not_and_or,or_assoc]

private theorem filter_keep {α : Type} (o : Option α) : o.filter (fun _ => true) = o := by
  cases o <;> rfl

private theorem injective_updated (unique : Injective files) :
    Injective (Table.modify files (updateFileRow variant st)) := by
  intro f g a b atF atG same
  rw [lookup_updated] at atF atG
  obtain ⟨x,storedF,rfl⟩ := Option.map_eq_some_iff.mp atF
  obtain ⟨y,storedG,rfl⟩ := Option.map_eq_some_iff.mp atG
  rw [updateFileRow_id,updateFileRow_id] at same
  exact unique f g x y storedF storedG same

private theorem mergedFiles_row (f : Text × Text) (row : FileRow)
    (found : (insertedFiles variant st files).lookup f = some row) :
    (mergedFiles variant st files).lookup f = some (updateFileRow variant st f row) := by
  rw [mergedFiles,lookup_updated,found]
  rfl

private theorem mergedFiles_none (f : Text × Text) (absent : (insertedFiles variant st files).lookup f = none) :
    (mergedFiles variant st files).lookup f = none := by
  rw [mergedFiles,lookup_updated,absent]
  rfl

theorem mergedFiles_unstaged (f : Text × Text) (absent : stagedRow variant st f = none) :
    (mergedFiles variant st files).lookup f = files.lookup f := by
  cases found : (insertedFiles variant st files).lookup f with
  | none => rw [mergedFiles_none f found,(inserted_none f found).1]
  | some row =>
    rw [mergedFiles_row f row found,updateFileRow_unstaged f row absent]
    obtain stored | ⟨_,⟨staged,present,_⟩,_⟩ := inserted_row f row found
    · exact stored.symm
    · simp [absent] at present

theorem mergedFiles_stat (f : Text × Text) :
    ((mergedFiles variant st files).lookup f).map FileRow.stat =
      match stagedRow variant st f with
      | some staged => some staged.stat
      | none => (files.lookup f).map FileRow.stat := by
  cases entry : stagedRow variant st f with
  | none => rw [mergedFiles_unstaged f entry]
  | some staged =>
    cases found : (insertedFiles variant st files).lookup f with
    | none => simp [(inserted_none f found).2] at entry
    | some row => rw [mergedFiles_row f row found,Option.map_some,updateFileRow_staged f row staged entry]

private theorem inserted_old {κ ν : Type} [DecidableEq κ] (t : Table (Nat × κ) ν) (filed : Filed files t)
    (f : Text × Text) (row : FileRow) (found : (insertedFiles variant st files).lookup f = some row) (k : κ) :
    t.lookup (row.id,k) = rowsOf files t f k := by
  obtain stored | ⟨absent,_,fresh⟩ := inserted_row f row found
  · simp [rowsOf,stored]
  · rw [rowsOf,absent]
    cases held : t.lookup (row.id,k) with
    | none => rfl
    | some v =>
      obtain ⟨g,other,stored,same⟩ := filed _ v held
      exact absurd same (fresh g other stored)

private theorem cleared_iff (unique : Injective (insertedFiles variant st files)) (f : Text × Text)
    (row : FileRow) (found : (insertedFiles variant st files).lookup f = some row) :
    supersededId variant st (insertedFiles variant st files) row.id = true ↔
      ∃ staged, stagedRow variant st f = some staged ∧ superseded row staged = true := by
  rw [supersededId_iff variant st _ unique f row found]
  constructor
  · intro ⟨here,staged,entry,gone⟩
    exact ⟨staged,stagedRow_some.mpr ⟨here,entry⟩,gone⟩
  · intro ⟨staged,entry,gone⟩
    obtain ⟨here,entry⟩ := stagedRow_some.mp entry
    exact ⟨here,staged,entry,gone⟩

private theorem gather_merged {κ ν : Type} [DecidableEq κ] [Conflict ν] (unique : Injective files)
    (rows : List ((Text × κ) × ν)) (covered : ∀ p k, st.files.lookup p = none → gather rows (p,k) = none)
    (f : Text × Text) (row : FileRow) (found : (insertedFiles variant st files).lookup f = some row) (k : κ) :
    gather (filedRows variant (mergedFiles variant st files) rows) (row.id,k) =
      match stagedRow variant st f with
      | some _ => gather rows (f.2,k)
      | none => none := by
  have unique' := @injective_updated variant st _
    ((filesInsert_grown variant st.files.entries files).injective unique)
  have gathered := gather_filedRows variant _ unique' f _ (mergedFiles_row f row found) rows k
  rw [updateFileRow_id] at gathered
  rw [mergedFiles,insertedFiles,gathered,stagedRow]
  by_cases here : f.1 = variant
  · rw [if_pos here,if_pos here]
    cases entry : st.files.lookup f.2 with
    | none => exact covered f.2 k entry
    | some staged => rfl
  · rw [if_neg here,if_neg here]

/-- A merged table, file by file: a staged file of the variant loses its rows when it is the main
file or has changed, and then takes the staged rows; every other file keeps what it has. -/
theorem rowsOf_merged {κ ν : Type} [DecidableEq κ] [Conflict ν] (unique : Injective files)
    (rows : List ((Text × κ) × ν)) (t : Table (Nat × κ) ν) (filed : Filed files t)
    (covered : ∀ p k, st.files.lookup p = none → gather rows (p,k) = none) (f : Text × Text) (k : κ) :
    rowsOf (mergedFiles variant st files) (mergedRows variant st files rows t) f k =
      match stagedRow variant st f with
      | some staged => merge (if staged.isMain || (files.lookup f).map FileRow.stat ≠ some staged.stat
          then none else rowsOf files t f k) (gather rows (f.2,k))
      | none => rowsOf files t f k := by
  cases found : (insertedFiles variant st files).lookup f with
  | none =>
    obtain ⟨absent,unstaged⟩ := inserted_none f found
    rw [rowsOf,mergedFiles_none f found,unstaged,rowsOf,absent]
    rfl
  | some row =>
    have unique' : Injective (insertedFiles variant st files) :=
      (filesInsert_grown variant st.files.entries files).injective unique
    have gone := cleared_iff unique' f row found
    have cell : rowsOf (mergedFiles variant st files) (mergedRows variant st files rows t) f k =
        merge (if supersededId variant st (insertedFiles variant st files) row.id then none
          else rowsOf files t f k) (gather (filedRows variant (mergedFiles variant st files) rows) (row.id,k)) := by
      rw [rowsOf,mergedFiles_row f row found,Option.bind_some,updateFileRow_id,mergedRows,insertFiled,
        Table.lookup_insertRows,deleteRows,Table.lookup_restrict,inserted_old t filed f row found k]
      cases supersededId variant st (insertedFiles variant st files) row.id <;> simp [filter_keep]
    rw [cell,gather_merged unique rows covered f row found k]
    cases entry : stagedRow variant st f with
    | none => simp [gone,entry]
    | some staged =>
      obtain stored | ⟨absent,_⟩ := inserted_row f row found
      · simp [gone,entry,stored,superseded_iff]
      · simp [rowsOf,absent]

private theorem mergedFiles_injective (unique : Injective files) :
    Injective (mergedFiles variant st files) :=
  injective_updated ((filesInsert_grown variant st.files.entries files).injective unique)

private theorem mergedRows_filed {κ ν : Type} [DecidableEq κ] [Conflict ν]
    (rows : List ((Text × κ) × ν)) (t : Table (Nat × κ) ν) (filed : Filed files t) :
    Filed (mergedFiles variant st files) (mergedRows variant st files rows t) := by
  intro k v held
  rw [mergedRows,insertFiled,Table.lookup_insertRows,deleteRows,Table.lookup_restrict] at held
  cases stored : t.lookup k with
  | some w =>
    obtain ⟨f,row,found,same⟩ := filed k w stored
    have grown := (filesInsert_grown variant st.files.entries files).keeps f row found
    refine ⟨f,updateFileRow variant st f row,?_,by rw [updateFileRow_id,same]⟩
    rw [mergedFiles,lookup_updated,insertedFiles,grown]
    rfl
  | none =>
    have staged : gather (filedRows variant (mergedFiles variant st files) rows) k ≠ none := by
      intro nothing
      rw [stored,nothing] at held
      simp at held
    rw [ne_eq,gather_eq_none,not_forall] at staged
    obtain ⟨filedRow,staged⟩ := staged
    obtain ⟨member,same⟩ := Classical.not_imp.mp staged
    obtain ⟨e,_,joined⟩ := List.mem_filterMap.mp member
    obtain ⟨file,found,rfl⟩ := Option.map_eq_some_iff.mp joined
    exact ⟨_,file,found,congrArg Prod.fst (not_not.mp same)⟩

end Merged

section Tables
variable (request : StoreRequest) (st : Staging) (db : Db)

theorem mergeTables_consistent (consistent : db.Consistent) : (mergeTables request st db).Consistent :=
  ⟨mergedFiles_injective consistent.injective,mergedRows_filed _ _ consistent.records,
    mergedRows_filed _ _ consistent.symbolTypes,mergedRows_filed _ _ consistent.functionTypes,
    mergedRows_filed _ _ consistent.symbolProperties,mergedRows_filed _ _ consistent.fileFingerprints⟩

def Db.merged (f : Text × Text) : FileContent :=
  match stagedRow request.variant st f with
  | some row => (db.content f).mergeFile row (st.content f.2)
  | none => db.content f

private theorem rows_uncovered {κ ν : Type} [DecidableEq κ] [Conflict ν] (t : Table (Text × κ) ν)
    (covered : ∀ p k v, t.lookup (p,k) = some v → (st.files.lookup p).isSome) (p : Text) (k : κ)
    (absent : st.files.lookup p = none) : gather (Table.rows t) (p,k) = none := by
  rw [Table.gather_rows]
  cases found : t.lookup (p,k) with
  | none => rfl
  | some v => simpa [absent] using covered p k v found

private theorem fingerprints_uncovered (p : Text) (k : Fingerprint) (absent : st.files.lookup p = none) :
    gather (stagedFingerprints st) (p,k) = none := by
  rw [gather_eq_none]
  intro row member same
  obtain ⟨e,entry,offered⟩ := List.mem_filterMap.mp member
  obtain ⟨fingerprint,_,rfl⟩ := Option.map_eq_some_iff.mp offered
  have found : st.files.lookup e.1 = some e.2 := AList.mem_lookup_iff.mpr entry
  have path : e.1 = p := congrArg Prod.fst same
  rw [path,absent] at found
  contradiction

/-- A merge acts on each staged file of its variant by itself and on nothing else. -/
theorem content_mergeTables (consistent : db.Consistent) (covered : st.Covered) (f : Text × Text) :
    (mergeTables request st db).content f = db.merged request st f := by
  have table : ∀ {κ ν : Type} [DecidableEq κ] [Conflict ν] (rows : List ((Text × κ) × ν)) (t : Table (Nat × κ) ν),
      Filed db.files t → (∀ p k, st.files.lookup p = none → gather rows (p,k) = none) → ∀ k,
      rowsOf (mergedFiles request.variant st db.files) (mergedRows request.variant st db.files rows t) f k =
        match stagedRow request.variant st f with
        | some row => merge (if row.isMain || (db.content f).stat ≠ some row.stat then none
            else rowsOf db.files t f k) (gather rows (f.2,k))
        | none => rowsOf db.files t f k := by
    intro κ ν _ _ rows t filed covered k
    exact rowsOf_merged consistent.injective rows t filed covered f k
  have records := table _ _ consistent.records (rows_uncovered st _ covered.records)
  have symbolTypes := table _ _ consistent.symbolTypes (rows_uncovered st _ covered.symbolTypes)
  have functionTypes := table _ _ consistent.functionTypes (rows_uncovered st _ covered.functionTypes)
  have properties := table _ _ consistent.symbolProperties (rows_uncovered st _ covered.symbolProperties)
  have fingerprints := table _ _ consistent.fileFingerprints (fingerprints_uncovered st)
  have stat := @mergedFiles_stat request.variant st db.files f
  unfold Db.merged
  cases entry : stagedRow request.variant st f with
  | none =>
    simp only [entry] at records symbolTypes functionTypes properties fingerprints stat
    exact FileContent.ext stat (funext records) (funext symbolTypes) (funext functionTypes)
      (funext properties) (funext fingerprints)
  | some row =>
    simp only [entry,Table.gather_rows] at records symbolTypes functionTypes properties fingerprints stat
    have new : (st.content f.2).stat = some row.stat := by
      rw [Staging.content,(stagedRow_some.mp entry).2]
      rfl
    change _ = FileContent.overlay (FileContent.retained _ row) _
    cases clear : row.isMain || (db.content f).stat ≠ some row.stat with
    | true =>
      simp only [clear,if_true] at records symbolTypes functionTypes properties fingerprints
      rw [FileContent.retained,if_pos clear]
      exact FileContent.ext (stat.trans new.symm) (funext records) (funext symbolTypes)
        (funext functionTypes) (funext properties) (funext fingerprints)
    | false =>
      simp only [clear,Bool.false_eq_true,if_false] at records symbolTypes functionTypes properties fingerprints
      rw [FileContent.retained,clear,if_neg Bool.false_ne_true]
      exact FileContent.ext (stat.trans new.symm) (funext records) (funext symbolTypes)
        (funext functionTypes) (funext properties) (funext fingerprints)

end Tables

end Semindex.IndexDb
