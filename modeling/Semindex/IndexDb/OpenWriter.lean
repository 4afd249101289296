import Semindex.IndexDb.Store
import Mathlib.Algebra.BigOperators.Fin
import Mathlib.Algebra.Order.BigOperators.Group.Finset

/-! `open_writer` and `init_schema` run by any number of processes on one file.
A process takes one statement at a time; what it writes between BEGIN IMMEDIATE
and COMMIT is its own until the commit, and the journal mode is set before any
of it. A statement that would find the file locked waits. The pragmas of the
connection itself are left out, and the statements of an open file succeed but
for a CREATE whose name is taken. -/
namespace Semindex.IndexDb.OpenWriter

inductive ObjectKind where
  | table
  | index
  | view
  | trigger
  deriving DecidableEq

/-- A row of `sqlite_schema`. -/
structure SchemaObject where
  kind : ObjectKind
  name : Text
  deriving DecidableEq

structure DbFile (ρ : Type) where
  objects : List SchemaObject
  version : Int
  wal : Bool
  rows : ρ

def schemaVersion : Int := indexSchemaVersion

def schemaObjects : List SchemaObject :=
  [⟨.table,"files".toList⟩,⟨.table,"records".toList⟩,⟨.index,"records_file_idx".toList⟩,
    ⟨.table,"symbol_types".toList⟩,⟨.index,"symbol_types_file_idx".toList⟩,⟨.table,"function_types".toList⟩,
    ⟨.index,"function_types_file_idx".toList⟩,⟨.table,"symbol_properties".toList⟩,
    ⟨.index,"symbol_properties_file_idx".toList⟩,⟨.index,"records_call_context_idx".toList⟩,
    ⟨.table,"variants".toList⟩,⟨.table,"file_fingerprints".toList⟩]

-- the letters A to Z only, as SQLite compares names
def folded (name : Text) : Text := name.map Char.toLower

/-- `s LIKE pattern` -/
def like : List Char → List Char → Bool
  | [],s => s.isEmpty
  | c::pattern,s =>
    if c = '%' then s.tails.any (like pattern)
    else match s with
      | [] => false
      | d::s => (c = '_' || c.toLower = d.toLower) && like pattern s

def SchemaObject.counted (o : SchemaObject) : Bool := o.kind = .table && !like "sqlite_%".toList o.name

section File
variable {ρ : Type}

def hasUserTables (file : DbFile ρ) : Bool := file.objects.any SchemaObject.counted

/-- Tables, indexes and views share their names. -/
def conflicts (objects : List SchemaObject) (o : SchemaObject) : Bool :=
  objects.any (fun p => p.kind ≠ .trigger && folded p.name = folded o.name)

def DbFile.create (file : DbFile ρ) (o : SchemaObject) : DbFile ρ := {file with objects := file.objects ++ [o]}
def DbFile.schema (file : DbFile ρ) : List SchemaObject × Int := (file.objects,file.version)

end File

/-- The statement a process runs next; `create` counts the objects it has created. -/
inductive Stage where
  | journalMode
  | firstVersion
  | beginImmediate
  | secondVersion
  | tableCheck
  | create (done : Nat)
  | commit
  | rollback
  | ready
  | failed
  deriving DecidableEq

structure System (n : Nat) (ρ : Type) where
  file : DbFile ρ
  holder : Option (Fin n × DbFile ρ)
  stage : Fin n → Stage

section Steps
variable {n : Nat} {ρ : Type}

def System.start (n : Nat) (file : DbFile ρ) : System n ρ := ⟨file,none,fun _ => .journalMode⟩

def System.goto (s : System n ρ) (i : Fin n) (stage : Stage) : System n ρ :=
  {s with stage := Function.update s.stage i stage}

/-- What the process has written in its transaction. -/
def System.working (s : System n ρ) (i : Fin n) : Option (DbFile ρ) :=
  s.holder.bind (fun held => if held.1 = i then some held.2 else none)

/-- What the process reads. -/
def System.seen (s : System n ρ) (i : Fin n) : DbFile ρ := (s.working i).getD s.file

def System.hold (s : System n ρ) (i : Fin n) (file : DbFile ρ) : System n ρ := {s with holder := some (i,file)}
def System.release (s : System n ρ) : System n ρ := {s with holder := none}
def System.publish (s : System n ρ) (file : DbFile ρ) : System n ρ := {s with file}

def afterSecond (file : DbFile ρ) : Stage :=
  if file.version = schemaVersion then .commit else if file.version ≠ 0 then .rollback else .tableCheck

/-- The next statement of process `i`; none where it waits for the lock or has returned. -/
def System.advance (s : System n ρ) (i : Fin n) : Option (System n ρ) :=
  match s.stage i with
  | .journalMode =>
    if s.file.wal then some (s.goto i .firstVersion)
    else if s.holder.isNone then some ((s.publish {s.file with wal := true}).goto i .firstVersion)
    else none
  | .firstVersion => some (s.goto i (if s.file.version = schemaVersion then .ready else .beginImmediate))
  | .beginImmediate => if s.holder.isNone then some ((s.hold i s.file).goto i .secondVersion) else none
  | .secondVersion => (s.working i).map (fun w => s.goto i (afterSecond w))
  | .tableCheck => (s.working i).map (fun w => s.goto i (if hasUserTables w then .rollback else .create 0))
  | .create done => (s.working i).map (fun w =>
    match schemaObjects[done]? with
    | some o =>
      if conflicts w.objects o then s.goto i .rollback else (s.hold i (w.create o)).goto i (.create (done + 1))
    | none => (s.hold i {w with version := schemaVersion}).goto i .commit)
  | .commit => (s.working i).map (fun w => (s.publish w).release.goto i .ready)
  | .rollback => (s.working i).map (fun _ => s.release.goto i .failed)
  | .ready => none
  | .failed => none

inductive Call where
  | create
  | store
  deriving DecidableEq

def schemaChange (s t : System n ρ) : Nat := if t.file.schema = s.file.schema then 0 else 1

/-- A run of processes that open the file, with the number of their steps and of the changes of
the published schema; a store that has opened it also commits merges, which write rows. -/
inductive Run (calls : Fin n → Call) (s : System n ρ) : Nat → Nat → System n ρ → Prop
  | start : Run calls s 0 0 s
  | opening {t u : System n ρ} {opened changes : Nat} {i : Fin n} (run : Run calls s opened changes t)
      (step : t.advance i = some u) : Run calls s (opened + 1) (changes + schemaChange t u) u
  | merging {t : System n ρ} {opened changes : Nat} {i : Fin n} (run : Run calls s opened changes t)
      (stores : calls i = .store) (isReady : t.stage i = .ready) (unlocked : t.holder = none) (rows : ρ) :
      Run calls s opened changes (t.publish {t.file with rows})

def Finished (s : System n ρ) : Prop := ∀ i, s.stage i = .ready ∨ s.stage i = .failed

end Steps

section Property
variable {ρ : Type}

def Absent (file : DbFile ρ) : Prop := file.objects = [] ∧ file.version = 0

def SchemaObject.user (o : SchemaObject) : Prop := o.kind = .table ∧ ¬ folded "sqlite_".toList <+: folded o.name

/-- A file of another version, or of none with tables of its user. -/
def Foreign (file : DbFile ρ) : Prop :=
  file.version ≠ schemaVersion ∧ (file.version ≠ 0 ∨ ∃ o ∈ file.objects, o.user)

/-- No object, or every object of `init_schema` and its version. -/
def Whole (file : DbFile ρ) : Prop := Absent file ∨ file.schema = (schemaObjects,schemaVersion)

/-- What holds of a run of `n` processes from `file` to `t`. -/
structure Opened (n : Nat) (file : DbFile ρ) (opened changes : Nat) (t : System n ρ) : Prop where
  ends : opened ≤ 20 * n ∧ (Finished t ∨ ∃ i, (t.advance i).isSome)
  absent : Absent file → (∀ i, t.stage i ≠ .failed) ∧ changes ≤ 1 ∧ Whole t.file ∧
    ∀ i, (t.stage i = .ready → changes = 1 ∧ t.file.schema = (schemaObjects,schemaVersion)) ∧
      (Whole (t.seen i) ∨ ∃ done, t.stage i = .create done)
  current : file.version = schemaVersion → changes = 0 ∧ t.file.schema = file.schema ∧ ∀ i, t.stage i ≠ .failed
  foreign : Foreign file → (∀ i, t.stage i ≠ .ready) ∧ t.file = file

/-- Opening the file for writing is safe for any number of processes in any order. -/
def OpensSafely (file : DbFile ρ) : Prop :=
  ∀ (n : Nat) (calls : Fin n → Call) (opened changes : Nat) (t : System n ρ),
    Run calls (.start n file) opened changes t → Opened n file opened changes t

end Property

/-- A file that `init_schema` completes. -/
structure Free {ρ : Type} (file : DbFile ρ) : Prop where
  version : file.version = 0
  tables : hasUserTables file = false
  names : ∀ o ∈ schemaObjects, conflicts file.objects o = false

/-- A file that `init_schema` leaves alone. -/
def Refused {ρ : Type} (file : DbFile ρ) : Prop := file.version ≠ schemaVersion ∧ ¬ Free file

section Standing
variable {n : Nat} {ρ : Type} {file other w : DbFile ρ} {s t : System n ρ} {i j : Fin n} {stage : Stage}

def DbFile.created (file : DbFile ρ) (done : Nat) : DbFile ρ :=
  {file with objects := file.objects ++ schemaObjects.take done}

def DbFile.completed (file : DbFile ρ) : DbFile ρ :=
  {file with objects := file.objects ++ schemaObjects, version := schemaVersion}

/-- What a process knows of the file and has written, by its stage. -/
def Standing (file : DbFile ρ) (working : Option (DbFile ρ)) : Stage → Prop
  | .journalMode => working = none
  | .firstVersion => working = none
  | .beginImmediate => working = none
  | .secondVersion => working = some file
  | .tableCheck => working = some file ∧ file.version = 0
  | .create done => working = some (file.created done) ∧ file.version = 0 ∧ hasUserTables file = false ∧
      done ≤ schemaObjects.length ∧ ∀ o ∈ schemaObjects.take done, conflicts file.objects o = false
  | .commit => (working = some file ∧ file.version = schemaVersion) ∨ (working = some file.completed ∧ Free file)
  | .rollback => working.isSome ∧ Refused file
  | .ready => working = none ∧ file.version = schemaVersion
  | .failed => working = none ∧ Refused file

/-- The published file as the changes of its schema have left it, and every process by its stage. -/
structure Sound (file : DbFile ρ) (changes : Nat) (s : System n ρ) : Prop where
  schema : (changes = 0 ∧ s.file.schema = file.schema ∧ (file.version ≠ schemaVersion → s.file.rows = file.rows)) ∨
    (changes = 1 ∧ Free file ∧ s.file.schema = (file.objects ++ schemaObjects,schemaVersion))
  wal : file.wal = true → s.file.wal = true
  stages : ∀ i, Standing s.file (s.working i) (s.stage i)

@[simp] theorem working_goto : (s.goto i stage).working j = s.working j := rfl
@[simp] theorem working_publish : (s.publish file).working j = s.working j := rfl
@[simp] theorem working_release : s.release.working j = none := rfl
@[simp] theorem working_hold : (s.hold i w).working i = some w := by simp [System.working,System.hold]

theorem working_hold_other (other : j ≠ i) : (s.hold i w).working j = none := by
  simp [System.working,System.hold,Ne.symm other]

theorem working_unlocked (unlocked : s.holder = none) : s.working j = none := by simp [System.working,unlocked]

theorem working_other (held : s.working i = some w) (other : j ≠ i) : s.working j = none := by
  unfold System.working at held ⊢
  cases holds : s.holder with
  | none => rfl
  | some pair =>
    rw [holds] at held
    have here : pair.1 = i := by
      by_contra away
      simp [away] at held
    simp [here,Ne.symm other]

theorem Free.of_schema (free : Free file) (same : other.schema = file.schema) : Free other := by
  obtain ⟨objects,version⟩ := Prod.mk.inj same
  refine ⟨version.trans free.version,?_,?_⟩
  · rw [hasUserTables,objects]
    exact free.tables
  · rw [objects]
    exact free.names

theorem Refused.of_schema (refused : Refused file) (same : other.schema = file.schema) : Refused other := by
  refine ⟨?_,fun free => refused.2 (free.of_schema same.symm)⟩
  rw [(Prod.mk.inj same).2]
  exact refused.1

/-- A process outside its transaction keeps its standing over what others publish. -/
theorem Standing.published (standing : Standing file none stage)
    (current : file.version = schemaVersion → other.version = schemaVersion)
    (refuses : Refused file → Refused other) : Standing other none stage := by
  cases stage with
  | journalMode | firstVersion | beginImmediate => rfl
  | secondVersion => cases standing
  | tableCheck => cases standing.1
  | create done => cases standing.1
  | commit =>
    rcases standing with ⟨held,_⟩ | ⟨held,_⟩
    · cases held
    · cases held
  | rollback => cases standing.1
  | ready => exact ⟨rfl,current standing.2⟩
  | failed => exact ⟨rfl,refuses standing.2⟩

theorem names_distinct : ∀ done : Fin schemaObjects.length,
    conflicts (schemaObjects.take done) schemaObjects[done] = false := by decide

theorem created_conflicts {done : Nat} {o : SchemaObject} (next : schemaObjects[done]? = some o) :
    conflicts (file.created done).objects o = conflicts file.objects o := by
  obtain ⟨bound,rfl⟩ := List.getElem?_eq_some_iff.mp next
  have none := names_distinct ⟨done,bound⟩
  unfold conflicts at none ⊢
  rw [DbFile.created,List.any_append]
  exact (congrArg (_ || ·) none).trans (Bool.or_false _)

theorem created_next {done : Nat} {o : SchemaObject} (next : schemaObjects[done]? = some o) :
    (file.created done).create o = file.created (done + 1) := by
  simp [DbFile.created,DbFile.create,List.take_add_one,next]


/-- What a step of `i` on the file must give, its standing afterwards and that of the others. -/
theorem Sound.moved {changes : Nat} (sound : Sound file changes s) (same : t.file = s.file)
    (stages : ∀ j ≠ i, t.stage j = s.stage j ∧ t.working j = s.working j)
    (standing : Standing s.file (t.working i) (t.stage i)) : Sound file (changes + schemaChange s t) t := by
  have unchanged : schemaChange s t = 0 := if_pos (by rw [same])
  rw [unchanged,Nat.add_zero]
  refine ⟨?_,?_,?_⟩
  · rw [same]
    exact sound.schema
  · rw [same]
    exact sound.wal
  · intro j
    rw [same]
    by_cases here : j = i
    · subst here
      exact standing
    · rw [(stages j here).1,(stages j here).2]
      exact sound.stages j

@[simp] theorem stage_goto : (s.goto i stage).stage i = stage := Function.update_self ..

theorem stage_goto_other (other : j ≠ i) : (s.goto i stage).stage j = s.stage j := Function.update_of_ne other ..

theorem Sound.goto {changes : Nat} (sound : Sound file changes s) (standing : Standing s.file (s.working i) stage) :
    Sound file (changes + schemaChange s (s.goto i stage)) (s.goto i stage) := by
  refine sound.moved (t := s.goto i stage) (i := i) rfl ?_ ?_
  · intro j other
    exact ⟨stage_goto_other other,rfl⟩
  · simpa using standing

/-- A step inside the transaction, or into it. -/
theorem Sound.hold {changes : Nat} (sound : Sound file changes s) (unheld : ∀ j ≠ i, s.working j = none)
    (standing : Standing s.file (some w) stage) :
    Sound file (changes + schemaChange s ((s.hold i w).goto i stage)) ((s.hold i w).goto i stage) := by
  refine sound.moved (t := (s.hold i w).goto i stage) (i := i) rfl ?_ ?_
  · intro j other
    refine ⟨stage_goto_other other,?_⟩
    rw [working_goto,working_hold_other other,unheld j other]
  · simpa using standing

theorem Sound.release {changes : Nat} (sound : Sound file changes s) (unheld : ∀ j ≠ i, s.working j = none)
    (standing : Standing s.file none stage) :
    Sound file (changes + schemaChange s (s.release.goto i stage)) (s.release.goto i stage) := by
  refine sound.moved (t := s.release.goto i stage) (i := i) rfl ?_ ?_
  · intro j other
    refine ⟨stage_goto_other other,?_⟩
    rw [working_goto,working_release,unheld j other]
  · simpa using standing


/-- A step that publishes a file, with no process in its transaction afterwards. -/
theorem Sound.publish {changes next : Nat} (sound : Sound file changes s) (unheld : ∀ j ≠ i, s.working j = none)
    (ended : ∀ j, t.working j = none) (stages : ∀ j ≠ i, t.stage j = s.stage j)
    (current : s.file.version = schemaVersion → t.file.version = schemaVersion)
    (refuses : Refused s.file → Refused t.file) (wal : s.file.wal = true → t.file.wal = true)
    (standing : Standing t.file none (t.stage i))
    (schema : (next = 0 ∧ t.file.schema = file.schema ∧ (file.version ≠ schemaVersion → t.file.rows = file.rows)) ∨
      (next = 1 ∧ Free file ∧ t.file.schema = (file.objects ++ schemaObjects,schemaVersion))) : Sound file next t := by
  refine ⟨schema,fun was => wal (sound.wal was),?_⟩
  intro j
  rw [ended j]
  by_cases here : j = i
  · subst here
    exact standing
  · have kept := sound.stages j
    rw [unheld j here] at kept
    rw [stages j here]
    exact kept.published current refuses

/-- Rows or the journal mode change, and the schema does not. -/
theorem Sound.same_schema {changes : Nat} (sound : Sound file changes s) (same : t.file.schema = s.file.schema)
    (rows : s.file.version ≠ schemaVersion → t.file.rows = s.file.rows) :
    (changes + schemaChange s t = 0 ∧ t.file.schema = file.schema ∧
      (file.version ≠ schemaVersion → t.file.rows = file.rows)) ∨
    (changes + schemaChange s t = 1 ∧ Free file ∧ t.file.schema = (file.objects ++ schemaObjects,schemaVersion)) := by
  have unchanged : schemaChange s t = 0 := if_pos same
  rw [unchanged,Nat.add_zero,same]
  rcases sound.schema with ⟨none,start,kept⟩ | created
  · refine .inl ⟨none,start,?_⟩
    intro old
    have version : s.file.version = file.version := (Prod.mk.inj start).2
    exact (rows (by rw [version]; exact old)).trans (kept old)
  · exact .inr created

theorem Sound.journal {changes : Nat} (sound : Sound file changes s) (unlocked : s.holder = none) :
    Sound file (changes + schemaChange s ((s.publish {s.file with wal := true}).goto i .firstVersion))
      ((s.publish {s.file with wal := true}).goto i .firstVersion) := by
  refine sound.publish (i := i) (fun j _ => working_unlocked unlocked) (fun j => working_unlocked unlocked)
    (fun j other => stage_goto_other other) id ?_ (fun _ => rfl) ?_ (sound.same_schema rfl (fun _ => rfl))
  · intro refused
    exact refused.of_schema rfl
  · rw [stage_goto]
    rfl

theorem Sound.commit {changes : Nat} (sound : Sound file changes s) (held : s.working i = some w)
    (here : s.stage i = .commit) :
    Sound file (changes + schemaChange s ((s.publish w).release.goto i .ready)) ((s.publish w).release.goto i .ready) := by
  have standing := sound.stages i
  rw [held,here] at standing
  have unheld : ∀ j ≠ i, s.working j = none := fun j other => working_other held other
  rcases standing with ⟨same,version⟩ | ⟨same,free⟩
  · obtain rfl := Option.some.inj same
    refine sound.publish (i := i) unheld (fun j => rfl) (fun j other => stage_goto_other other) id id id ?_
      (sound.same_schema rfl (fun _ => rfl))
    rw [stage_goto]
    exact ⟨rfl,version⟩
  · obtain rfl := Option.some.inj same
    have old : s.file.version ≠ schemaVersion := by
      rw [free.version]
      decide
    refine sound.publish (i := i) unheld (fun j => rfl) (fun j other => stage_goto_other other) (fun _ => rfl)
      (fun refused => absurd free refused.2) id ?_ ?_
    · rw [stage_goto]
      exact ⟨rfl,rfl⟩
    · rcases sound.schema with ⟨none,start,_⟩ | ⟨_,_,created⟩
      · have changed : schemaChange s ((s.publish s.file.completed).release.goto i .ready) = 1 :=
          if_neg (fun equal => old (Prod.mk.inj equal).2.symm)
        refine .inr ⟨by rw [none,changed],free.of_schema start.symm,?_⟩
        change (s.file.objects ++ schemaObjects,schemaVersion) = _
        rw [(Prod.mk.inj start).1]
      · exact absurd (Prod.mk.inj created).2 old

/-- One statement of one process. -/
theorem Sound.advance {changes : Nat} (sound : Sound file changes s) (step : s.advance i = some t) :
    Sound file (changes + schemaChange s t) t := by
  have standing := sound.stages i
  unfold System.advance at step
  cases here : s.stage i with
  | journalMode =>
    simp only [here] at step standing
    split at step
    · obtain rfl := Option.some.inj step
      exact sound.goto standing
    · split at step
      · obtain rfl := Option.some.inj step
        rename_i unlocked
        exact sound.journal (Option.isNone_iff_eq_none.mp unlocked)
      · cases step
  | firstVersion =>
    simp only [here] at step standing
    obtain rfl := Option.some.inj step
    apply sound.goto
    split
    · rename_i version
      exact ⟨standing,version⟩
    · exact standing
  | beginImmediate =>
    simp only [here] at step standing
    split at step
    · obtain rfl := Option.some.inj step
      rename_i unlocked
      exact sound.hold (fun j _ => working_unlocked (Option.isNone_iff_eq_none.mp unlocked)) rfl
    · cases step
  | secondVersion =>
    simp only [here] at step standing
    rw [show s.working i = some s.file from standing] at step
    obtain rfl := Option.some.inj step
    apply sound.goto
    rw [show s.working i = some s.file from standing]
    unfold afterSecond
    split
    · rename_i version
      exact .inl ⟨rfl,version⟩
    · rename_i old
      split
      · rename_i another
        exact ⟨rfl,old,fun free => another free.version⟩
      · rename_i none
        exact ⟨rfl,not_not.mp none⟩
  | tableCheck =>
    simp only [here] at step standing
    obtain ⟨held,version⟩ := standing
    rw [held] at step
    obtain rfl := Option.some.inj step
    apply sound.goto
    rw [held]
    split
    · rename_i tables
      exact ⟨rfl,by rw [version]; decide,fun free => by simp [free.tables] at tables⟩
    · rename_i none
      exact ⟨by simp [DbFile.created],version,by simpa using none,Nat.zero_le _,by simp⟩
  | create done =>
    simp only [here] at step standing
    obtain ⟨held,version,tables,within,names⟩ := standing
    have unheld : ∀ j ≠ i, s.working j = none := fun j other => working_other held other
    rw [held] at step
    cases next : schemaObjects[done]? with
    | none =>
      simp only [next,Option.map_some,Option.some.injEq] at step
      subst step
      have all : schemaObjects.take done = schemaObjects := List.take_of_length_le (List.getElem?_eq_none_iff.mp next)
      rw [all] at names
      refine sound.hold unheld (.inr ⟨?_,version,tables,names⟩)
      rw [DbFile.created,all]
      rfl
    | some o =>
      simp only [next,Option.map_some,Option.some.injEq,created_conflicts next] at step
      obtain ⟨bound,isNext⟩ := List.getElem?_eq_some_iff.mp next
      split at step
      · subst step
        rename_i taken
        apply sound.goto
        rw [held]
        refine ⟨rfl,by rw [version]; decide,fun free => ?_⟩
        have clear := free.names o (isNext ▸ List.getElem_mem bound)
        rw [clear] at taken
        cases taken
      · subst step
        rename_i clear
        refine sound.hold unheld ⟨by rw [created_next next],version,tables,bound,?_⟩
        intro p member
        rw [List.take_add_one,next] at member
        rcases List.mem_append.mp member with before | last
        · exact names p before
        · obtain rfl := List.mem_singleton.mp last
          simpa using clear
  | commit =>
    simp only [here] at step
    obtain ⟨w,held,rfl⟩ := Option.map_eq_some_iff.mp step
    exact sound.commit held here
  | rollback =>
    simp only [here] at step standing
    obtain ⟨w,held,rfl⟩ := Option.map_eq_some_iff.mp step
    exact sound.release (fun j other => working_other held other) ⟨rfl,standing.2⟩
  | ready =>
    simp only [here] at step
    cases step
  | failed =>
    simp only [here] at step
    cases step

/-- A merge of a store that has opened the file. -/
theorem Sound.merging {changes : Nat} (sound : Sound file changes s) (isReady : s.stage i = .ready)
    (unlocked : s.holder = none) (rows : ρ) : Sound file changes (s.publish {s.file with rows}) := by
  have standing := sound.stages i
  rw [isReady] at standing
  have schema := sound.same_schema (t := s.publish {s.file with rows}) rfl (fun old => absurd standing.2 old)
  have unchanged : schemaChange s (s.publish {s.file with rows}) = 0 := if_pos rfl
  rw [unchanged,Nat.add_zero] at schema
  refine sound.publish (i := i) (fun j _ => working_unlocked unlocked) (fun j => working_unlocked unlocked)
    (fun j _ => rfl) id (fun refused => refused.of_schema rfl) id ?_ schema
  change Standing {s.file with rows} none (s.stage i)
  rw [isReady]
  exact ⟨rfl,standing.2⟩

theorem sound_start (n : Nat) (file : DbFile ρ) : Sound file 0 (.start n file) :=
  ⟨.inl ⟨rfl,rfl,fun _ => rfl⟩,id,fun _ => rfl⟩

variable {calls : Fin n → Call} {opened changes : Nat}

theorem sound_run (run : Run calls (.start n file) opened changes t) : Sound file changes t := by
  induction run with
  | start => exact sound_start n file
  | opening run step ih => exact ih.advance step
  | merging run stores isReady unlocked rows ih => exact ih.merging isReady unlocked rows

def Stage.inside : Stage → Bool
  | .secondVersion | .tableCheck | .create _ | .commit | .rollback => true
  | _ => false

/-- Just the process in a transaction has the file locked. -/
theorem Standing.working_isSome {working : Option (DbFile ρ)} (standing : Standing file working stage) :
    working.isSome = stage.inside := by
  cases stage with
  | journalMode | firstVersion | beginImmediate => rw [show working = none from standing]; rfl
  | secondVersion => rw [show working = some file from standing]; rfl
  | tableCheck | create done => rw [standing.1]; rfl
  | commit =>
    rcases standing with ⟨held,_⟩ | ⟨held,_⟩
    · rw [held]; rfl
    · rw [held]; rfl
  | rollback => exact standing.1
  | ready | failed => rw [standing.1]; rfl

/-- While a process has not returned, one of them can take a step. -/
theorem Sound.progress (sound : Sound file changes s) : Finished s ∨ ∃ i, (s.advance i).isSome := by
  cases locked : s.holder with
  | some held =>
    have holds : s.working held.1 = some held.2 := by simp [System.working,locked]
    have inside := (sound.stages held.1).working_isSome
    rw [holds] at inside
    refine .inr ⟨held.1,?_⟩
    unfold System.advance
    cases here : s.stage held.1 <;> simp_all [Stage.inside]
  | none =>
    by_cases finished : Finished s
    · exact .inl finished
    · unfold Finished at finished
      push Not at finished
      obtain ⟨i,unready,unfailed⟩ := finished
      have outside := (sound.stages i).working_isSome
      rw [working_unlocked locked] at outside
      refine .inr ⟨i,?_⟩
      unfold System.advance
      cases here : s.stage i <;> simp_all [Stage.inside]
      split <;> rfl

/-- Bounds the statements that are left. -/
def Stage.work : Stage → Nat
  | .journalMode => 20
  | .firstVersion => 19
  | .beginImmediate => 18
  | .secondVersion => 17
  | .tableCheck => 16
  | .create done => 3 + (schemaObjects.length - done)
  | .commit => 2
  | .rollback => 1
  | .ready => 0
  | .failed => 0

def System.work (s : System n ρ) : Nat := ∑ i, (s.stage i).work

theorem advance_stage (step : s.advance i = some t) :
    ∃ stage, t.stage = Function.update s.stage i stage ∧ stage.work < (s.stage i).work := by
  unfold System.advance at step
  cases here : s.stage i with
  | journalMode =>
    simp only [here] at step
    split at step
    · obtain rfl := Option.some.inj step
      exact ⟨_,rfl,by decide⟩
    · split at step
      · obtain rfl := Option.some.inj step
        exact ⟨_,rfl,by decide⟩
      · cases step
  | firstVersion =>
    simp only [here] at step
    obtain rfl := Option.some.inj step
    refine ⟨_,rfl,?_⟩
    split <;> decide
  | beginImmediate =>
    simp only [here] at step
    split at step
    · obtain rfl := Option.some.inj step
      exact ⟨_,rfl,by decide⟩
    · cases step
  | secondVersion =>
    simp only [here] at step
    obtain ⟨w,held,rfl⟩ := Option.map_eq_some_iff.mp step
    refine ⟨_,rfl,?_⟩
    unfold afterSecond
    split
    · decide
    · split <;> decide
  | tableCheck =>
    simp only [here] at step
    obtain ⟨w,held,rfl⟩ := Option.map_eq_some_iff.mp step
    refine ⟨_,rfl,?_⟩
    split <;> decide
  | create done =>
    simp only [here] at step
    obtain ⟨w,held,moved⟩ := Option.map_eq_some_iff.mp step
    cases next : schemaObjects[done]? with
    | none =>
      simp only [next] at moved
      subst moved
      exact ⟨_,rfl,by simp only [Stage.work]; omega⟩
    | some o =>
      simp only [next] at moved
      have bound := (List.getElem?_eq_some_iff.mp next).1
      split at moved
      · subst moved
        exact ⟨_,rfl,by simp only [Stage.work]; omega⟩
      · subst moved
        exact ⟨_,rfl,by simp only [Stage.work]; omega⟩
  | commit =>
    simp only [here] at step
    obtain ⟨w,held,rfl⟩ := Option.map_eq_some_iff.mp step
    exact ⟨_,rfl,by decide⟩
  | rollback =>
    simp only [here] at step
    obtain ⟨w,held,rfl⟩ := Option.map_eq_some_iff.mp step
    exact ⟨_,rfl,by decide⟩
  | ready =>
    simp only [here] at step
    cases step
  | failed =>
    simp only [here] at step
    cases step

theorem advance_work (step : s.advance i = some t) : t.work < s.work := by
  obtain ⟨stage,moved,less⟩ := advance_stage step
  unfold System.work
  refine Finset.sum_lt_sum (fun j _ => ?_) ⟨i,Finset.mem_univ i,?_⟩
  · by_cases here : j = i
    · subst here
      rw [moved,Function.update_self]
      exact less.le
    · rw [moved,Function.update_of_ne here]
  · rw [moved,Function.update_self]
    exact less

theorem run_work (run : Run calls s opened changes t) : opened + t.work ≤ s.work := by
  induction run with
  | start => exact (Nat.zero_add _).le
  | opening run step ih =>
    have less := advance_work step
    omega
  | merging run stores isReady unlocked rows ih => exact ih

theorem start_work (n : Nat) (file : DbFile ρ) : (System.start n file).work = 20 * n := by
  simp [System.work,System.start,Stage.work,Nat.mul_comm]

/-- Every run can be continued until all processes have returned. -/
theorem run_finishes (run : Run calls (.start n file) opened changes s) :
    ∃ more changed t, Run calls (.start n file) more changed t ∧ Finished t := by
  induction left : s.work using Nat.strongRecOn generalizing s opened changes with
  | ind left' ih =>
    subst left
    rcases (sound_run run).progress with finished | ⟨i,can⟩
    · exact ⟨opened,changes,s,run,finished⟩
    · obtain ⟨t,step⟩ := Option.isSome_iff_exists.mp can
      exact ih t.work (advance_work step) (run.opening step) rfl

section Files
variable (run : Run calls (.start n file) opened changes t)
include run

/-- An absent file gets the schema once, and who has opened it finds all of it. -/
theorem opened_absent (absent : Absent file) : (∀ i, t.stage i ≠ .failed) ∧ changes ≤ 1 ∧ Whole t.file ∧
    ∀ i, (t.stage i = .ready → changes = 1 ∧ t.file.schema = (schemaObjects,schemaVersion)) ∧
      (Whole (t.seen i) ∨ ∃ done, t.stage i = .create done) := by
  have sound := sound_run run
  obtain ⟨objects,version⟩ := absent
  have free : Free file := ⟨version,by simp [hasUserTables,objects],by simp [conflicts,objects]⟩
  have accepted : ¬ Refused t.file := by
    intro refused
    rcases sound.schema with ⟨_,start,_⟩ | ⟨_,_,created⟩
    · exact refused.2 (free.of_schema start)
    · exact refused.1 (Prod.mk.inj created).2
  have whole : Whole t.file := by
    rcases sound.schema with ⟨_,start,_⟩ | ⟨_,_,created⟩
    · exact .inl ⟨(Prod.mk.inj start).1.trans objects,(Prod.mk.inj start).2.trans version⟩
    · rw [objects] at created
      exact .inr created
  have once : t.file.version = schemaVersion → changes = 1 ∧ t.file.schema = (schemaObjects,schemaVersion) := by
    intro current
    rcases sound.schema with ⟨_,start,_⟩ | ⟨one,_,created⟩
    · have old : t.file.version = 0 := (Prod.mk.inj start).2.trans version
      rw [old] at current
      exact absurd current (by decide)
    · rw [objects] at created
      exact ⟨one,created⟩
  refine ⟨?_,?_,whole,?_⟩
  · intro i isFailed
    have standing := sound.stages i
    rw [isFailed] at standing
    exact accepted standing.2
  · rcases sound.schema with ⟨none,_⟩ | ⟨one,_⟩
    · exact none.trans_le (Nat.zero_le 1)
    · exact one.le
  · intro i
    have standing := sound.stages i
    have seen : ∀ w, t.working i = some w → t.seen i = w := fun w held => by rw [System.seen,held]; rfl
    have unheld : t.working i = none → t.seen i = t.file := fun none => by rw [System.seen,none]; rfl
    cases here : t.stage i with
    | journalMode | firstVersion | beginImmediate =>
      rw [here] at standing
      exact ⟨by simp,.inl (unheld standing ▸ whole)⟩
    | secondVersion =>
      rw [here] at standing
      exact ⟨by simp,.inl (seen _ standing ▸ whole)⟩
    | tableCheck =>
      rw [here] at standing
      exact ⟨by simp,.inl (seen _ standing.1 ▸ whole)⟩
    | create done => exact ⟨by simp,.inr ⟨done,rfl⟩⟩
    | commit =>
      rw [here] at standing
      refine ⟨by simp,.inl ?_⟩
      rcases standing with ⟨held,_⟩ | ⟨held,unversioned⟩
      · exact seen _ held ▸ whole
      · rw [seen _ held]
        rcases whole with ⟨none,_⟩ | created
        · refine .inr ?_
          rw [DbFile.schema,DbFile.completed,none]
          rfl
        · have current : t.file.version = schemaVersion := (Prod.mk.inj created).2
          rw [unversioned.version] at current
          exact absurd current (by decide)
    | rollback =>
      rw [here] at standing
      exact absurd standing.2 accepted
    | ready =>
      rw [here] at standing
      exact ⟨fun _ => once standing.2,.inl (unheld standing.1 ▸ whole)⟩
    | failed =>
      rw [here] at standing
      exact absurd standing.2 accepted

theorem opened_current (current : file.version = schemaVersion) :
    changes = 0 ∧ t.file.schema = file.schema ∧ ∀ i, t.stage i ≠ .failed := by
  have sound := sound_run run
  rcases sound.schema with ⟨none,same,_⟩ | ⟨_,free,_⟩
  · refine ⟨none,same,?_⟩
    intro i isFailed
    have standing := sound.stages i
    rw [isFailed] at standing
    exact standing.2.1 ((Prod.mk.inj same).2.trans current)
  · rw [free.version] at current
    exact absurd current (by decide)

/-- A file in write-ahead mode that is refused is not opened and not written. -/
theorem opened_refused (refused : Refused file) (wal : file.wal = true) :
    (∀ i, t.stage i ≠ .ready) ∧ t.file = file := by
  have sound := sound_run run
  rcases sound.schema with ⟨_,same,rows⟩ | ⟨_,free,_⟩
  · obtain ⟨objects,version⟩ := Prod.mk.inj same
    refine ⟨?_,?_⟩
    · intro i isReady
      have standing := sound.stages i
      rw [isReady] at standing
      exact refused.1 (version.symm.trans standing.2)
    · have mode := (sound.wal wal).trans wal.symm
      have rows := rows refused.1
      cases held : t.file
      cases file
      simp_all
  · exact absurd free refused.2

end Files

theorem opened_ends (run : Run calls (.start n file) opened changes t) :
    opened ≤ 20 * n ∧ (Finished t ∨ ∃ i, (t.advance i).isSome) := by
  have bound := run_work run
  rw [start_work] at bound
  exact ⟨by omega,(sound_run run).progress⟩

/-- A file that can be completed is opened by a process alone. -/
theorem free_opened (free : Free file) :
    ∃ opened changes t, Run (fun _ : Fin 1 => Call.create) (.start 1 file) opened changes t ∧ t.stage 0 = .ready := by
  have begun : Run (fun _ : Fin 1 => Call.create) (.start 1 file) 0 0 (.start 1 file) := .start
  obtain ⟨opened,changes,t,run,finished⟩ := run_finishes begun
  refine ⟨opened,changes,t,run,?_⟩
  rcases finished 0 with isReady | isFailed
  · exact isReady
  · have sound := sound_run run
    have standing := sound.stages 0
    rw [isFailed] at standing
    rcases sound.schema with ⟨_,start,_⟩ | ⟨_,_,created⟩
    · exact absurd (free.of_schema start) standing.2.2
    · exact absurd (Prod.mk.inj created).2 standing.2.1

/-- The first statement of a process alone sets the journal mode. -/
theorem journal_first (file : DbFile ρ) (journal : file.wal = false) :
    ∃ changes t, Run (fun _ : Fin 1 => Call.create) (.start 1 file) 1 changes t ∧ t.file ≠ file := by
  refine ⟨_,((System.start 1 file).publish {file with wal := true}).goto 0 .firstVersion,.opening .start (i := 0) ?_,?_⟩
  · simp [System.advance,System.start,journal]
  · intro same
    have set : true = file.wal := congrArg DbFile.wal same
    rw [journal] at set
    cases set

/-- Opening is safe but for a foreign file whose journal mode is another, and for one without a version whose
tables all look like those of the database itself and leave the names of the schema free. -/
theorem opensSafely_iff (file : DbFile ρ) : OpensSafely file ↔
    (Foreign file → file.wal = true ∧ (file.version ≠ 0 ∨ hasUserTables file = true ∨
      ∃ o ∈ schemaObjects, conflicts file.objects o = true)) := by
  constructor
  · intro safe foreign
    refine ⟨?_,?_⟩
    · by_contra journal
      obtain ⟨changes,t,run,changed⟩ := journal_first file (Bool.eq_false_iff.mpr journal)
      exact changed ((safe _ _ _ _ _ run).foreign foreign).2
    · by_contra hidden
      push Not at hidden
      obtain ⟨version,tables,names⟩ := hidden
      have free : Free file :=
        ⟨version,Bool.eq_false_iff.mpr tables,fun o member => Bool.eq_false_iff.mpr (names o member)⟩
      obtain ⟨opened,changes,t,run,isReady⟩ := free_opened free
      exact ((safe _ _ _ _ _ run).foreign foreign).1 0 isReady
  · intro guarded n calls opened changes t run
    refine ⟨opened_ends run,opened_absent run,opened_current run,?_⟩
    intro foreign
    obtain ⟨wal,kept⟩ := guarded foreign
    refine opened_refused run ⟨foreign.1,fun free => ?_⟩ wal
    rcases kept with version | tables | ⟨o,member,taken⟩
    · exact version free.version
    · rw [free.tables] at tables
      cases tables
    · rw [free.names o member] at taken
      cases taken

def oldDatabase : DbFile Unit := ⟨[⟨.table,"old_records".toList⟩],0,false,()⟩

/-- The database of another program is left in another journal mode. -/
theorem old_database_changed : ¬ OpensSafely oldDatabase := by
  intro safe
  obtain ⟨changes,t,run,changed⟩ := journal_first oldDatabase rfl
  have foreign : Foreign oldDatabase := by
    refine ⟨by decide,.inr ⟨_,List.mem_singleton.mpr rfl,rfl,?_⟩⟩
    decide
  exact changed ((safe _ _ _ _ _ run).foreign foreign).2

end Standing
end Semindex.IndexDb.OpenWriter
