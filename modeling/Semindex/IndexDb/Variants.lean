import Semindex.IndexDb.Reachable

/-! The table `variants` over a sequence of stores: which variants it lists, and
whose provenance it has for them. The stores may have been staged at any time;
the sequence is that of their merges. -/
namespace Semindex.IndexDb
open Semindex.Relational

section Step
variable {blake3 : List UInt8 → Fingerprint} {job : Job} {db after : Db}

theorem upsertVariant_coalesce (gitCommit repositoryRoot : Option Text) (row : VariantRow) :
    upsertVariant gitCommit repositoryRoot (some row) =
      ⟨coalesce gitCommit row.gitCommit,coalesce repositoryRoot row.repositoryRoot⟩ := by
  have kept (new old : Option Text) (same : (new.isSome && decide (old ≠ new)) = false) : coalesce new old = old := by
    unfold coalesce
    split
    · rename_i present
      simp only [present,Bool.true_and,decide_eq_false_iff_not,not_not] at same
      exact same.symm
    · rfl
  unfold upsertVariant
  dsimp only
  split
  · rfl
  · rename_i unchanged
    rw [Bool.not_eq_true,Bool.or_eq_false_iff] at unchanged
    rw [kept _ _ unchanged.1,kept _ _ unchanged.2]

/-- A store changes the row of its own variant only. -/
theorem stores_variants (stored : job.Stores blake3 db after) : after.variants =
    db.variants.insert job.request.variant (upsertVariant job.request.gitCommit job.request.repositoryRoot
      (db.variants.lookup job.request.variant)) := by
  obtain ⟨st,_,merged⟩ := stored
  obtain ⟨_,rfl⟩ := mergeStaging_some.mp merged
  rfl

theorem stores_lists (stored : job.Stores blake3 db after) (variant : Text) :
    (after.variants.lookup variant).isSome =
      ((db.variants.lookup variant).isSome || decide (variant = job.request.variant)) := by
  rw [stores_variants stored]
  by_cases same : variant = job.request.variant
  · rw [same,AList.lookup_insert]
    simp
  · rw [AList.lookup_insert_ne same]
    simp [same]

-- rows of files are not deleted
theorem stores_keeps_files (stored : job.Stores blake3 db after) (consistent : db.Consistent) {f : Text × Text}
    (present : (db.content f).stat.isSome) : (after.content f).stat.isSome := by
  cases entry : job.row blake3 f with
  | some row =>
    rw [stores_stat stored entry]
    rfl
  | none =>
    obtain ⟨st,staged,merged⟩ := stored
    obtain ⟨skip,again,produces⟩ := stagedBy_produces staged
    have same := content_merged produces consistent merged f
    rw [entry] at same
    rw [same]
    exact present

theorem stores_adds_files (stored : job.Stores blake3 db after) (consistent : db.Consistent) {f : Text × Text}
    (present : (after.content f).stat.isSome) : (db.content f).stat.isSome ∨ f.1 = job.request.variant := by
  cases entry : job.row blake3 f with
  | some row => exact .inr (Job.row_some.mp entry).1
  | none =>
    obtain ⟨st,staged,merged⟩ := stored
    obtain ⟨skip,again,produces⟩ := stagedBy_produces staged
    have same := content_merged produces consistent merged f
    rw [entry] at same
    rw [same] at present
    exact .inl present

end Step

/-- The states that a sequence of stores leads to, the last one first. -/
inductive History (blake3 : List UInt8 → Fingerprint) : List Job → Db → Prop where
  | empty : History blake3 [] .empty
  | store (job : Job) (earlier : List Job) (db after : Db) (history : History blake3 earlier db)
      (stored : job.Stores blake3 db after) : History blake3 (job::earlier) after

/-- Of the stores of a variant, the last one's value, where it has one. -/
def lastKnown (field : StoreRequest → Option Text) (variant : Text) (history : List Job) : Option Text :=
  (history.filter (fun job => job.request.variant = variant)).findSome? (fun job => field job.request)

section Runs
variable {blake3 : List UInt8 → Fingerprint} {history : List Job} {db : Db}

theorem History.consistent (run : History blake3 history db) : db.Consistent := by
  induction run with
  | empty => exact empty_consistent
  | store job earlier db after _ stored ih => exact stores_consistent stored ih

theorem lastKnown_other (field : StoreRequest → Option Text) {variant : Text} {job : Job} (earlier : List Job)
    (other : job.request.variant ≠ variant) : lastKnown field variant (job::earlier) = lastKnown field variant earlier := by
  unfold lastKnown
  rw [List.filter_cons_of_neg (by simpa using other)]

theorem lastKnown_own (field : StoreRequest → Option Text) (job : Job) (earlier : List Job) :
    lastKnown field job.request.variant (job::earlier) =
      coalesce (field job.request) (lastKnown field job.request.variant earlier) := by
  unfold lastKnown coalesce
  rw [List.filter_cons_of_pos (by simp),List.findSome?_cons]
  cases field job.request <;> rfl

theorem lastKnown_none (field : StoreRequest → Option Text) {variant : Text}
    (absent : ∀ job ∈ history, job.request.variant ≠ variant) : lastKnown field variant history = none := by
  unfold lastKnown
  rw [List.filter_eq_nil_iff.mpr (fun job member => by simpa using absent job member)]
  rfl

/-- The provenance of the variants over any run. -/
theorem variants_last (run : History blake3 history db) (variant : Text) : db.variants.lookup variant =
    if ∃ job ∈ history, job.request.variant = variant then
      some ⟨lastKnown StoreRequest.gitCommit variant history,lastKnown StoreRequest.repositoryRoot variant history⟩
    else none := by
  induction run with
  | empty => simp [Db.empty]
  | store job earlier db after _ stored ih =>
    rw [stores_variants stored]
    by_cases own : job.request.variant = variant
    · subst own
      rw [AList.lookup_insert,if_pos ⟨job,List.mem_cons_self,rfl⟩,lastKnown_own,lastKnown_own,ih]
      split
      · rw [upsertVariant_coalesce]
      · rename_i first
        have absent : ∀ other ∈ earlier, other.request.variant ≠ job.request.variant := by
          intro other member same
          exact first ⟨other,member,same⟩
        rw [lastKnown_none _ absent,lastKnown_none _ absent]
        unfold upsertVariant coalesce
        cases job.request.gitCommit <;> cases job.request.repositoryRoot <;> rfl
    · rw [AList.lookup_insert_ne (Ne.symm own),lastKnown_other _ _ own,lastKnown_other _ _ own,ih]
      simp [own]

/-- The variants listed are those stored to, and the files are of them. -/
theorem files_listed (run : History blake3 history db) {f : Text × Text} (present : (db.content f).stat.isSome) :
    (db.variants.lookup f.1).isSome := by
  induction run with
  | empty => simp [Db.content,Db.empty] at present
  | store job earlier db after run stored ih =>
    rw [stores_lists stored]
    rcases stores_adds_files stored run.consistent present with old | own
    · simp [ih old]
    · simp [own]

/-- In every run a variant has the last root and the last commit that a store of it came with, each by itself,
and the files are those of listed variants. -/
theorem variants_history (run : History blake3 history db) :
    (∀ variant, db.variants.lookup variant =
      if ∃ job ∈ history, job.request.variant = variant then
        some ⟨lastKnown StoreRequest.gitCommit variant history,lastKnown StoreRequest.repositoryRoot variant history⟩
      else none) ∧
    ∀ f, (db.content f).stat.isSome → (db.variants.lookup f.1).isSome :=
  ⟨variants_last run,fun _ present => files_listed run present⟩

-- the second store has no root of its own
theorem variants_history_sample : ∃ db : Db,
    db.variants.lookup "v".toList = some ⟨some "c1".toList,some "/r".toList⟩ := by
  let rooted := headerJob "a.c" 10 ["f"]
  let rootless : Job := {rooted with request := {rooted.request with repositoryRoot := none, gitCommit := some "c1".toList}}
  obtain ⟨first,stored⟩ := @store_total foldHash rooted .empty
  obtain ⟨second,again⟩ := @store_total foldHash rootless first
  have run : History foldHash [rootless,rooted] second :=
    .store _ _ _ _ (.store _ _ _ _ .empty (stores_of_store stored)) (stores_of_store again)
  refine ⟨second,?_⟩
  rw [(variants_history run).1]
  decide

end Runs
end Semindex.IndexDb
