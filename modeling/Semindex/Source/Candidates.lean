import Semindex.Source.Encoding
import Semindex.Database.Leaf
import Semindex.Lsp.Exact

/-! The spellings under which the readers look a source up, against the one under
which the writer stores it: which file they denote, for any working directory. -/
namespace Semindex.Source
open Semindex.Relational Semindex.IndexDb Semindex.Database

-- a separator at the end does not change the file
def trimmed (path : Pathname) : Pathname := { path with names := path.names.filter (fun name => name ≠ []) }

section Candidates
variable (fs : FileSystem) (root cwd source : Canonical)

def candidates : List Text := databasePaths ⟨root.path⟩ cwd.text source.text

/-- It is the source, or the root joined with it is. -/
def Denotes (candidate : Text) : Prop :=
  candidate = source.text ∨ trimmed (resolve ⟨root.path⟩ candidate) = source.path

structure ReadersAgree : Prop where
  denotes : ∀ candidate ∈ candidates root cwd source, Denotes root source candidate
  distinct : (candidates root cwd source).Nodup
  written : repositoryPath fs (some root.text) source.text ∈ candidates root cwd source
  records : ∀ db variant line column records,
    recordsAt db ⟨root.path⟩ cwd.text ⟨source.text,variant,line,column⟩ = some records →
      ∀ record ∈ records, Denotes root source record.path
  lines : ∀ db variant result, sourceRequest db ⟨root.path⟩ cwd.text fs variant source.text = some result →
    Denotes root source result.indexedPath ∧ trimmed result.physicalPath = source.path ∧
      db.files.lookup (variant,result.indexedPath) = some result.metadata ∧
      commitPath result.indexedPath root.path = commitPath source.text root.path

/-- The working directory is the root, or the source is not below it. -/
def WellPlaced : Prop := cwd = root ∨ ¬ cwd.names <+: source.names

/-- Where the source exists, it is its own canonical file (below `/`: the file the writer's path spells). -/
def OwnFile : Prop := ∀ file : Canonical, fs.realpath source.text = some file.text →
  if root = Canonical.root then
    source = root ∨ file ≠ root ∧ (file.text.drop 2 = source.text ∨ file.text.drop 2 = source.text.tail)
  else file = source

variable {fs root cwd source}

theorem trimmed_path (file : Canonical) : trimmed file.path = file.path := by
  unfold trimmed Canonical.path
  congr 1
  rw [List.filter_eq_self]
  intro name member
  simpa using (file.proper name member).nonempty

theorem inside_iff : inside (source.path.lexicallyRelative root.path) = true ↔ root.names <+: source.names := by
  constructor
  · intro below
    by_contra outside
    simp [inside,Canonical.relative_outside outside] at below
  · intro ⟨rest,below⟩
    have proper := Canonical.below_proper below.symm
    rw [Canonical.relative_below below.symm]
    cases rest with
    | nil => decide
    | cons name rest =>
      have good := (proper name List.mem_cons_self).notDotdot
      simp [inside,Pathname.isEmpty,good]

theorem stored_roots {other : Canonical} (left : root.names <+: source.names) (right : other.names <+: source.names)
    (same : root.stored source = other.stored source) : root = other := by
  obtain ⟨rest,below⟩ := left
  obtain ⟨more,under⟩ := right
  rw [stored_below below.symm,stored_below under.symm] at same
  have rests := rest_injective (Canonical.below_proper below.symm) (Canonical.below_proper under.symm) same
  subst rests
  exact Canonical.names_injective (List.append_cancel_right (below.trans under.symm))

theorem candidates_eq : candidates root cwd source = source.text ::
    ((if root.names <+: source.names then [root.stored source] else []) ++
      if cwd.names <+: source.names ∧ cwd ≠ root then [cwd.stored source] else []) := by
  have normal : normalize source.text = source.path := by
    rw [normalize,Canonical.ofText_text,Canonical.path_normal]
  have text (directory : Canonical) (below : directory.names <+: source.names) :
      (source.path.lexicallyRelative directory.path).text = directory.stored source := by
    rw [Canonical.stored,if_pos below]
  unfold candidates databasePaths
  rw [normal,Canonical.ofText_text]
  dsimp only
  rw [if_neg (by simp [Canonical.path]),Canonical.path_text]
  by_cases here : cwd.names <+: source.names
  · rw [inside_iff.mpr here,text cwd here]
    by_cases same : cwd = root
    · subst same
      simp [inside_iff.mpr here,here,text cwd here]
    · by_cases below : root.names <+: source.names
      · have apart : source.path.lexicallyRelative cwd.path ≠ source.path.lexicallyRelative root.path := by
          intro equal
          have texts := congrArg Pathname.text equal
          rw [text cwd here,text root below] at texts
          exact same (stored_roots here below texts)
        simp [inside_iff.mpr below,below,here,same,apart,text root below]
      · have outside : inside (source.path.lexicallyRelative root.path) = false :=
          Bool.eq_false_iff.mpr (fun below' => below (inside_iff.mp below'))
        simp [outside,below,here,same]
  · have outside : inside (source.path.lexicallyRelative cwd.path) = false :=
      Bool.eq_false_iff.mpr (fun below' => here (inside_iff.mp below'))
    rw [outside]
    by_cases below : root.names <+: source.names
    · simp [inside_iff.mpr below,below,here,text root below]
    · have other : inside (source.path.lexicallyRelative root.path) = false :=
        Bool.eq_false_iff.mpr (fun below' => below (inside_iff.mp below'))
      simp [other,below,here]

theorem setWorkspaceRoot_canonical : setWorkspaceRoot root.text = some ⟨root.path⟩ := by
  rw [setWorkspaceRoot,normalize,Canonical.ofText_text,Canonical.path_normal]
  rfl

section Denote

theorem resolve_stored (directory : Canonical) (below : directory.names <+: source.names) :
    trimmed (resolve ⟨root.path⟩ (directory.stored source)) = source.path ↔ directory = root := by
  obtain ⟨rest,same⟩ := below
  have proper := Canonical.below_proper same.symm
  let joined : Canonical := ⟨root.names ++ rest,fun name member =>
    (List.mem_append.mp member).elim (root.proper name) (proper name)⟩
  have spelled : trimmed (resolve ⟨root.path⟩ (directory.stored source)) = joined.path := by
    rw [stored_below same.symm]
    by_cases whole : rest = []
    · rw [if_pos whole,List.intercalate_singleton,resolve_dot]
      have own := congrArg Pathname.names (trimmed_path root)
      change root.names.filter _ = root.names at own
      unfold trimmed
      dsimp only
      rw [List.filter_append,own]
      split <;> simp [joined,Canonical.path,whole]
    · rw [if_neg whole,@resolve_below root joined rest rfl whole,trimmed_path]
  rw [spelled]
  constructor
  · intro equal
    have names : root.names ++ rest = source.names := congrArg Pathname.names equal
    exact Canonical.names_injective (List.append_cancel_right (same.trans names.symm))
  · intro equal
    rw [Canonical.path,Canonical.path,← same,equal]

theorem denotes_resolve {candidate : Text} :
    Denotes root source candidate ↔ trimmed (resolve ⟨root.path⟩ candidate) = source.path := by
  constructor
  · intro denotes
    rcases denotes with same | joined
    · rw [same,resolve_outside,trimmed_path]
    · exact joined
  · exact .inr

/-- All spellings denote the source just where the working directory cannot mislead. -/
theorem denotes_iff : (∀ candidate ∈ candidates root cwd source, Denotes root source candidate) ↔
    WellPlaced root cwd source := by
  rw [candidates_eq]
  constructor
  · intro denote
    by_contra misplaced
    rw [WellPlaced,not_or,not_not] at misplaced
    have listed := denote (cwd.stored source) (by simp [misplaced])
    exact misplaced.1 ((resolve_stored cwd misplaced.2).mp (denotes_resolve.mp listed))
  · intro placed candidate member
    have none : ¬ (cwd.names <+: source.names ∧ cwd ≠ root) := by
      intro ⟨below,other⟩
      exact placed.elim other (fun outside => outside below)
    rw [if_neg none,List.append_nil] at member
    rcases List.mem_cons.mp member with whole | relative
    · exact .inl whole
    · split at relative
      · rename_i below
        obtain rfl := List.mem_singleton.mp relative
        exact .inr ((resolve_stored root below).mpr rfl)
      · cases relative

theorem candidates_nodup : (candidates root cwd source).Nodup := by
  have relative {directory : Canonical} (below : directory.names <+: source.names) :
      source.text ≠ directory.stored source := by
    intro same
    exact stored_head below (same ▸ rfl)
  rw [candidates_eq]
  split_ifs with below here here
  · have apart : root.stored source ≠ cwd.stored source :=
      fun same => here.2 (stored_roots here.1 below same.symm)
    simp [relative below,relative here.1,apart]
  · simp [relative below]
  · simp [relative here.1]
  · simp

end Denote

section Written

-- the writer's path is a candidate just for the file's own canonical name
theorem written_iff (lawful : fs.Lawful) (placed : WellPlaced root cwd source) :
    repositoryPath fs (some root.text) source.text ∈ candidates root cwd source ↔ OwnFile fs root source := by
  have none : ¬ (cwd.names <+: source.names ∧ cwd ≠ root) := by
    intro ⟨below,other⟩
    exact placed.elim other (fun outside => outside below)
  rw [candidates_eq,if_neg none,List.append_nil]
  cases resolved : fs.realpath source.text with
  | none =>
    rw [repositoryPath_unknown resolved]
    simp [OwnFile,resolved]
  | some path =>
    obtain ⟨file,rfl⟩ := lawful.canonical _ _ resolved
    have own : OwnFile fs root source ↔ if root = Canonical.root then
        source = root ∨ file ≠ root ∧ (file.text.drop 2 = source.text ∨ file.text.drop 2 = source.text.tail)
        else file = source := by
      unfold OwnFile
      constructor
      · intro all
        exact all file resolved
      · intro one other same
        rw [resolved] at same
        exact Canonical.text_injective (Option.some.inj same) ▸ one
    rw [own]
    by_cases slash : root = Canonical.root
    · subst slash
      have below : Canonical.root.names <+: source.names := List.nil_prefix
      have relative : source ≠ Canonical.root → Canonical.root.stored source = source.text.tail := by
        intro other
        have names : source.names ≠ [] := fun empty => other (Canonical.names_injective empty)
        rw [@stored_below Canonical.root source source.names rfl,if_neg names]
        rfl
      rw [repositoryPath_root resolved,if_pos below,if_pos rfl]
      by_cases whole : source = Canonical.root
      · subst whole
        have same : file.text = Canonical.root.text := Option.some.inj (resolved.symm.trans lawful.root)
        simp [same,@stored_below Canonical.root Canonical.root [] rfl,Pathname.dot]
      · have names : source.names ≠ [] := fun empty => whole (Canonical.names_injective empty)
        have dotted : ['.'] ≠ source.text.tail := by
          intro same
          have spelled := @rest_injective [] source.names (by simp) source.proper (by
            rw [if_neg names,if_pos rfl,List.intercalate_singleton]
            exact same)
          exact names spelled.symm
        rw [relative whole]
        by_cases top : file = Canonical.root
        · subst top
          have rooted : ['.'] ≠ source.text := by simp [Canonical.text]
          simp [whole,dotted,rooted]
        · have other : file.text ≠ Canonical.root.text := fun same => top (Canonical.text_injective same)
          have starts : ['/'].isPrefixOf file.text = true := rfl
          rw [if_neg other,if_pos starts]
          simp [whole,top]
    · rw [repositoryPath_stored resolved slash,if_neg slash]
      constructor
      · intro member
        rcases List.mem_cons.mp member with same | relative
        · by_cases below : root.names <+: file.names
          · exact absurd (same ▸ rfl) (stored_head below)
          · rw [stored_outside below] at same
            exact Canonical.text_injective same
        · split at relative
          · exact stored_injective (List.mem_singleton.mp relative)
          · cases relative
      · intro same
        subst same
        by_cases below : root.names <+: file.names
        · simp [below]
        · simp [stored_outside below]

end Written

section Answers
variable {db : Db}

-- every record found comes from one of the paths
theorem collectRecord_path {path : Text} (rows : List RecordRow) (column : Nat)
    (stored : ∀ row ∈ rows, row.path = path) {before : List DbRecord} {ok : DbRecord → Prop}
    (earlier : ∀ record ∈ before, ok record) (here : ∀ record : DbRecord, record.path = path → ok record) :
    ∀ record ∈ (emitRecords collectRecord column rows before).1, ok record := by
  induction rows generalizing before with
  | nil => exact earlier
  | cons row rows ih =>
    have later (other : RecordRow) (member : other ∈ rows) := stored other (List.mem_cons_of_mem _ member)
    rw [emitRecords]
    dsimp only
    split
    · exact ih later earlier
    · rw [if_neg (by simp [collectRecord])]
      refine ih later ?_
      intro record member
      unfold collectRecord at member
      dsimp only at member
      split at member
      · exact earlier record member
      · rcases List.mem_append.mp member with old | new
        · exact earlier record old
        · obtain rfl := List.mem_singleton.mp new
          exact here _ (stored row List.mem_cons_self)

theorem lookAt_path {query : PositionQuery} {paths : List Text} {before records : List DbRecord}
    {ok : DbRecord → Prop} (found : lookAt db query paths before = some records)
    (earlier : ∀ record ∈ before, ok record)
    (here : ∀ path ∈ paths, ∀ record : DbRecord, record.path = path → ok record) : ∀ record ∈ records, ok record := by
  induction paths generalizing before with
  | nil =>
    cases Option.some.inj found
    exact earlier
  | cons path paths ih =>
    have looked : ∀ record ∈ (semindexDbFindAt db path (if query.variant = [] then none else some query.variant)
        query.line query.column collectRecord before).1, ok record := by
      unfold semindexDbFindAt
      split
      · exact earlier
      · refine collectRecord_path _ _ ?_ earlier (here path List.mem_cons_self)
        intro row member
        exact (mem_selectAt.mp member).2.1
    rw [lookAt] at found
    dsimp only at found
    generalize (if query.variant = [] then none else some query.variant) = variant at looked found
    split at found
    · cases found
    · split at found
      · cases Option.some.inj found
        exact looked
      · exact ih found looked (fun other member => here other (List.mem_cons_of_mem _ member))

end Answers

section Agreement

theorem commitPath_stored (below : root.names <+: source.names) :
    commitPath (root.stored source) root.path = commitPath source.text root.path := by
  obtain ⟨rest,same⟩ := below
  have proper := Canonical.below_proper same.symm
  have relative : Pathname.ofText (root.stored source) = source.path.lexicallyRelative root.path := by
    rw [stored_below same.symm,Canonical.relative_below same.symm]
    by_cases whole : rest = []
    · rw [if_pos whole]
      decide
    · rw [if_neg whole]
      exact ofText_names whole (fun name member => ⟨(proper name member).nonempty,(proper name member).plain⟩)
  have flat : (source.path.lexicallyRelative root.path).rooted = false := by
    rw [Canonical.relative_below same.symm]
  unfold commitPath
  rw [relative,Canonical.ofText_text]
  have rooted : source.path.rooted = true := rfl
  simp only [flat,rooted,Bool.false_eq_true,if_false,if_true]

/-- Readers and writer agree on a source just where the working directory is the root or not above the
source, and the source is its own canonical file. -/
theorem readers_agree_iff (lawful : fs.Lawful) : ReadersAgree fs root cwd source ↔
    WellPlaced root cwd source ∧ OwnFile fs root source := by
  constructor
  · intro agree
    have placed := denotes_iff.mp agree.denotes
    exact ⟨placed,(written_iff lawful placed).mp agree.written⟩
  · intro ⟨placed,own⟩
    have denote := denotes_iff.mpr placed
    exact {
      denotes := denote
      distinct := candidates_nodup
      written := (written_iff lawful placed).mpr own
      records := by
        intro db variant line column records found
        unfold recordsAt at found
        split at found
        · cases found
        · refine lookAt_path found (by simp) ?_
          intro path member record same
          rw [same]
          exact denote path member
      lines := by
        intro db variant result found
        obtain ⟨candidate,member,looked⟩ := List.exists_of_findSome?_eq_some found
        obtain ⟨metadata,stored,rfl⟩ := Option.map_eq_some_iff.mp looked
        have meant := denote candidate member
        refine ⟨meant,denotes_resolve.mp meant,stored,?_⟩
        have none : ¬ (cwd.names <+: source.names ∧ cwd ≠ root) := by
          intro ⟨below,other⟩
          exact placed.elim other (fun outside => outside below)
        have listed : candidate ∈ candidates root cwd source := member
        rw [candidates_eq,if_neg none,List.append_nil] at listed
        rcases List.mem_cons.mp listed with whole | relative
        · exact congrArg (commitPath · root.path) whole
        · split at relative
          · rename_i below
            obtain rfl := List.mem_singleton.mp relative
            exact commitPath_stored below
          · cases relative }

end Agreement

end Candidates

section Samples

def nestedSource : Canonical := ⟨["r".toList,"sub".toList,"a.c".toList],by
  intro name member
  have each : ∀ name ∈ ["r".toList,"sub".toList,"a.c".toList], name ≠ [] ∧ '/' ∉ name ∧ name ≠ Pathname.dot ∧
      name ≠ Pathname.dotdot := by decide
  obtain ⟨nonempty,plain,notDot,notDotdot⟩ := each name member
  exact ⟨nonempty,plain,notDot,notDotdot⟩⟩

def nestedDirectory : Canonical :=
  ⟨["r".toList,"sub".toList],fun name member => nestedSource.proper name (List.mem_of_mem_take (i := 2) member)⟩

-- `/r/sub/a.c`, in a repository at `/r`
def nestedFs : FileSystem := tableFs (
  ["/r/sub/a.c"].map (fun name => (name.toList,"/r/sub/a.c".toList,⟨1,3,10,5,false⟩)) ++
  ["/","//","//."].map (fun name => (name.toList,"/".toList,⟨1,1,10,5,true⟩)))

theorem nestedFs_lawful : nestedFs.Lawful := by
  refine tableFs_lawful ?_ (by decide) (by decide) (by decide)
  intro e member
  rcases List.mem_append.mp member with member | member
  · obtain ⟨_,_,rfl⟩ := List.mem_map.mp member
    exact ⟨nestedSource,show "/r/sub/a.c".toList = nestedSource.text by decide⟩
  · obtain ⟨_,_,rfl⟩ := List.mem_map.mp member
    exact ⟨Canonical.root,rfl⟩

theorem nested_own : OwnFile nestedFs sampleRoot nestedSource := by
  intro file same
  rw [if_neg (fun top => absurd (congrArg Canonical.names top) (by decide))]
  have known : nestedFs.realpath nestedSource.text = some nestedSource.text := by decide
  exact Canonical.text_injective (Option.some.inj (same.symm.trans known))

theorem readers_agree_nested : ReadersAgree nestedFs sampleRoot sampleRoot nestedSource :=
  (readers_agree_iff nestedFs_lawful).mpr ⟨.inl rfl,nested_own⟩

/-- Started in a directory below the root, the server answers for `/r/sub/a.c` with a record of `/r/a.c`. -/
theorem working_directory_misleads : nestedFs.Lawful ∧
    ¬ ReadersAgree nestedFs sampleRoot nestedDirectory nestedSource ∧
    ∃ db, storeAll foldHash [(Lsp.symbolNote "v".toList "a.c".toList "x".toList .var 5).job] = some db ∧
      ∃ record, recordsAt db ⟨sampleRoot.path⟩ nestedDirectory.text ⟨nestedSource.text,"v".toList,1,1⟩ =
        some [record] ∧ record.path = "a.c".toList ∧ ¬ Denotes sampleRoot nestedSource record.path := by
  have misplaced : ¬ WellPlaced sampleRoot nestedDirectory nestedSource := by
    intro placed
    rcases placed with same | outside
    · exact absurd (congrArg Canonical.names same) (by decide)
    · exact outside (by decide)
  refine ⟨nestedFs_lawful,fun agree => misplaced (denotes_iff.mp agree.denotes),?_⟩
  have run : (storeAll foldHash [(Lsp.symbolNote "v".toList "a.c".toList "x".toList .var 5).job]).map (fun db =>
      (recordsAt db ⟨sampleRoot.path⟩ nestedDirectory.text ⟨nestedSource.text,"v".toList,1,1⟩).map
        (List.map DbRecord.path)) = some (some ["a.c".toList]) := by decide +kernel
  obtain ⟨db,stored,found⟩ := Option.map_eq_some_iff.mp run
  obtain ⟨records,answered,paths⟩ := Option.map_eq_some_iff.mp found
  obtain ⟨record,rfl,path⟩ := List.map_eq_singleton_iff.mp paths
  refine ⟨db,stored,record,answered,path,?_⟩
  rw [path,denotes_resolve]
  decide

end Samples
end Semindex.Source
