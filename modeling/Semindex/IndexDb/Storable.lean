import Semindex.IndexDb.Replace

/-! What the writer can store. Units of one use each, over files that cannot be
looked at, are never cached and never replace anything, so any sequence of uses
ends up in the tables, the first under each primary key. -/
namespace Semindex.IndexDb
open Semindex.Relational

structure Note where
  variant : Text
  path : Text
  use : Use

def Note.index (note : Note) : Index where
  files := [note.path]
  symbols := []
  uses := [{note.use with fileIndex := 0}]
  functionSignatures := []
  symbols_located := by simp
  uses_located := by simp
  signatures_located := by simp

def Note.job (note : Note) : Job where
  fs := ⟨fun _ => none,fun _ => none,fun _ => none⟩
  request := ⟨note.index,none,note.variant,none,none,true⟩

def Note.file (note : Note) : Text × Text := (note.variant,note.path)

def Note.key (note : Note) : RecordKey where
  symbol := qualifiedName note.use.owner note.use.name
  record := 1
  action := note.use.kind.code
  kind := note.use.symbolKind.code
  mode := note.use.mode
  line := note.use.line
  column := note.use.column

def Note.value (note : Note) : RecordValue where
  context := note.use.context
  usrId := optionalId note.use.usr note.use.usrId
  contextUsrId := optionalId note.use.contextUsr note.use.contextUsrId
  isLocal := note.use.isLocal

-- the same use of another symbol, in another file
def Note.moved (note : Note) (variant path symbol : Text) : Note :=
  ⟨variant,path,{note.use with owner := [], name := symbol}⟩

def Note.row (note : Note) : ((Text × Text) × RecordKey) × RecordValue := ((note.file,note.key),note.value)

section One
variable {blake3 : List UInt8 → Fingerprint} {note : Note}

theorem note_passing : note.job.passing = [.use {note.use with fileIndex := 0}] := by
  simp [Job.passing,Note.job,Note.index,Index.items,Item.passes]

theorem note_storedPath : note.job.storedPath blake3 0 = note.path := by
  obtain ⟨fingerprint,counted⟩ := @passing_counted blake3 note.job (.use {note.use with fileIndex := 0}) (by simp [note_passing])
  have file := rebuildFingerprints_file _ _ _ _ _ counted.listed
  have named : note.path = fingerprint.file := by simpa [Item.fileIndex,Note.job,Note.index] using file
  have root : note.job.root = none := rfl
  have listed : (note.job.fingerprints blake3)[0]? = some fingerprint := counted.listed
  rw [storedPath_listed listed,Job.pathOf,root,named]
  rfl

theorem note_rows : note.job.passing.flatMap (recordRows (note.job.paths blake3)) =
    [((note.path,note.key),note.value)] := by
  have path := @located_path blake3 note.job _ _ _ (recordRows_located _) (.use {note.use with fileIndex := 0}) (by simp [note_passing]) _ (List.mem_singleton.mpr rfl)
  rw [note_passing,List.flatMap_singleton]
  change [_] = [_]
  rw [List.cons.injEq,Prod.ext_iff,Prod.ext_iff]
  exact ⟨⟨⟨path.trans note_storedPath,rfl⟩,rfl⟩,rfl⟩

theorem note_staged {path : Text} {row : StagingFile} (found : (note.job.stagedFiles blake3).lookup path = some row) :
    path = note.path ∧ row.isMain = false ∧ row.stat = (0,0) := by
  obtain ⟨_,⟨main,_⟩ | ⟨_,i,fingerprint,counted,rfl⟩⟩ := stagedFiles_row found
  · simp [Job.paths,Note.job] at main
  · refine ⟨?_,rfl,rfl⟩
    have bound := (List.getElem?_eq_some_iff.mp counted.listed).1
    rw [Job.fingerprints,rebuildFingerprints_length] at bound
    obtain rfl : i = 0 := by simpa [Note.job,Note.index] using bound
    exact counted.path_eq.symm.trans note_storedPath

theorem note_row : ∃ row, note.job.row blake3 note.file = some row ∧ row.isMain = false ∧ row.stat = (0,0) := by
  obtain ⟨fingerprint,counted⟩ := @passing_counted blake3 note.job (.use {note.use with fileIndex := 0}) (by simp [note_passing])
  obtain ⟨row,found⟩ := Option.isSome_iff_exists.mp (stagedFiles_counted counted)
  have here : note.job.storedPath blake3 (Item.use {note.use with fileIndex := 0}).fileIndex = note.path :=
    note_storedPath
  rw [here] at found
  exact ⟨row,Job.row_some.mpr ⟨rfl,found⟩,(note_staged found).2⟩

theorem note_elsewhere {f : Text × Text} (other : f ≠ note.file) : note.job.row blake3 f = none := by
  cases found : note.job.row blake3 f with
  | none => rfl
  | some row =>
    obtain ⟨variant,staged⟩ := Job.row_some.mp found
    exact absurd (Prod.ext variant (note_staged staged).1) other

-- a file without a time is never looked up in the cache
theorem note_uncached {db : Db} (i : Nat) : isCached (note.job.cachedFlags blake3 db) i = false := by
  by_contra cached
  rw [Bool.not_eq_false] at cached
  obtain ⟨_,path,row,_,found,_,_,marked⟩ := cachedOrdinals_mem (cachedFlags_hit cached)
  have stat : (row.mtimeNs,row.size) = (0,0) := (note_staged found).2.2
  have clear := (stagedFiles_row found).1
  rw [lookup_markedFiles,found,Option.map_some,Option.some.injEq] at marked
  simp only [Prod.mk.injEq] at stat
  simp only [stat.1,ne_eq,not_true_eq_false,decide_false,Bool.and_false,Bool.false_and,Bool.false_eq_true,
    if_false] at marked
  rw [marked] at clear
  contradiction

theorem note_content {db after : Db} (consistent : db.Consistent) (stored : note.job.store blake3 db = some after)
    (stat : (db.content note.file).stat = none ∨ (db.content note.file).stat = some (0,0)) (f : Text × Text)
    (k : RecordKey) :
    (after.content f).records k =
      merge ((db.content f).records k) (if note.row.1 = (f,k) then some note.value else none) := by
  obtain ⟨st,staged,merged⟩ := store_fresh stored
  have content := content_merged (stage_produces staged) consistent merged f
  by_cases here : f = note.file
  · subst here
    obtain ⟨row,entry,included,same⟩ := @note_row blake3 note
    have kept : ((db.content note.file).retained row).records k = (db.content note.file).records k := by
      rcases stat with absent | known
      · have unknown : db.files.lookup note.file = none := by
          simpa [Db.content] using absent
        unfold FileContent.retained
        split
        · simp [FileContent.blank,Db.content,rowsOf,unknown]
        · rfl
      · rw [retained_of_stat included (known.trans (congrArg some same.symm))]
    rw [content,entry]
    change merge (((db.content note.file).retained row).records k) (gather _ (note.path,k)) = _
    rw [kept,rows_once]
    have all : (note.job.passing.filter (fun item => !isCached (note.job.cachedFlags blake3 db) item.fileIndex)) =
        note.job.passing := List.filter_eq_self.mpr (fun item _ => by rw [note_uncached]; rfl)
    rw [all,note_rows,gather_singleton]
    simp [Note.row]
  · rw [content,note_elsewhere here]
    have other : note.row.1 ≠ (f,k) := fun same => here (congrArg Prod.fst same).symm
    rw [if_neg other,merge_none]

theorem note_stat {db after : Db} (consistent : db.Consistent) (stored : note.job.store blake3 db = some after)
    (f : Text × Text) : (after.content f).stat = (db.content f).stat ∨ (after.content f).stat = some (0,0) := by
  by_cases here : f = note.file
  · subst here
    obtain ⟨row,entry,_,same⟩ := @note_row blake3 note
    rw [stores_stat (stores_of_store stored) entry,same]
    exact .inr rfl
  · obtain ⟨st,staged,merged⟩ := store_fresh stored
    rw [content_merged (stage_produces staged) consistent merged,note_elsewhere here]
    exact .inl rfl

end One

section All
variable (blake3 : List UInt8 → Fingerprint)

/-- After storing the notes one by one the tables have the first of them under each key. -/
theorem notes_stored (notes : List Note) : ∃ db, storeAll blake3 (notes.map Note.job) = some db ∧
    (∀ f, (db.content f).stat = none ∨ (db.content f).stat = some (0,0)) ∧
    ∀ f k, (db.content f).records k = gather (notes.map Note.row) (f,k) := by
  induction notes using List.reverseRecOn with
  | nil => exact ⟨.empty,rfl,fun f => .inl rfl,fun f k => rfl⟩
  | append_singleton notes note ih =>
    obtain ⟨db,history,stats,rows⟩ := ih
    have reached : Reachable blake3 (fun _ => True) db := reachable_storeAll _ (fun _ _ => trivial) history
    obtain ⟨after,stored⟩ := @store_total blake3 note.job db
    refine ⟨after,?_,?_,?_⟩
    · rw [storeAll] at history ⊢
      rw [List.map_append,List.foldlM_append,history]
      simpa using stored
    · intro f
      rcases note_stat reached.consistent stored f with same | fresh
      · rw [same]
        exact stats f
      · exact .inr fresh
    · intro f k
      rw [note_content reached.consistent stored (stats note.file),rows,List.map_append,gather_append]
      simp [gather_singleton,Note.row]

/-- Notes that agree wherever they share a key are all in some state the writer reaches. -/
theorem notes_reachable (notes : List Note)
    (agree : ∀ a ∈ notes, ∀ b ∈ notes, a.row.1 = b.row.1 → a.value = b.value) :
    ∃ db, Reachable blake3 (fun _ => True) db ∧
      ∀ note ∈ notes, (db.content note.file).records note.key = some note.value := by
  obtain ⟨db,history,_,rows⟩ := notes_stored blake3 notes
  refine ⟨db,reachable_storeAll _ (fun _ _ => trivial) history,?_⟩
  intro note member
  have listed : note.row ∈ notes.map Note.row := List.mem_map.mpr ⟨note,member,rfl⟩
  obtain ⟨v,found⟩ := Option.isSome_iff_exists.mp (absorbs_gather listed).isSome
  obtain ⟨other,inside,same⟩ := List.mem_map.mp (gather_mem (fun _ _ => rfl) found)
  have shared : other.row.1 = note.row.1 := by rw [same]
  have value : other.value = v := congrArg Prod.snd same
  rw [rows]
  change gather _ note.row.1 = _
  rw [found,← value,agree other inside note member shared]

end All
end Semindex.IndexDb
