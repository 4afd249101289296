import Semindex.IndexDb.Transparent
import Semindex.IndexDb.Replace

/-! Two translation units stored in either order. Alone, a store is its uncached
merge; two of them that share only unchanged headers commute exactly when the
headers' rows under one primary key agree on the columns that a taken key drops. -/
namespace Semindex.IndexDb
open Semindex.Relational

section Sequential
variable {blake3 : List UInt8 → Fingerprint} {job : Job}

/-- Over a reachable state a store alone merges what the index yields, file by file. -/
theorem content_store {jobs : Job → Prop} {db after : Db} (faithful : FingerprintFaithful blake3 jobs)
    (member : jobs job) (reached : Reachable blake3 jobs db) (stored : job.store blake3 db = some after)
    (f : Text × Text) :
    after.content f = match job.row blake3 f with
      | some row => (db.content f).mergeFile row (job.yields blake3 f.2)
      | none => db.content f := by
  obtain ⟨st,staged,merged⟩ := store_fresh stored
  have same := merge_uncached (stage_produces staged) reached.consistent (reached.accounted faithful) member
    (fun impossible => by contradiction) merged
  rw [same.content f]
  exact content_merged stageAll_produces reached.consistent (mergeStaging_stageAll db) f

theorem yields_stat {f : Text × Text} {row : StagingFile} (entry : job.row blake3 f = some row) :
    (job.yields blake3 f.2).stat = some row.stat := by
  simp [Job.yields,Job.content,(Job.row_some.mp entry).2]

end Sequential

section Cells
variable {ν : Type} [Conflict ν]

-- with `INSERT OR IGNORE` two insertions commute unless a free key gets different rows
theorem merge_swap_iff (first : ∀ a b : ν, Conflict.resolve a b = a) (old a b : Option ν) :
    merge (merge old a) b = merge (merge old b) a ↔
      (old = none → ∀ v w, a = some v → b = some w → v = w) := by
  cases old with
  | some o => simp [merge_some first]
  | none => cases a <;> cases b <;> simp [merge,first]

theorem merge_swap (commute : ∀ a b : ν, Conflict.resolve a b = Conflict.resolve b a) (old a b : Option ν) :
    merge (merge old a) b = merge (merge old b) a := by
  rw [merge_assoc,merge_assoc]
  cases a <;> cases b <;> simp [merge,commute]

end Cells

section Orders
variable (blake3 : List UInt8 → Fingerprint) (a b : Job)

/-- Same variant, and a file that both stage is the main file of neither and shows both the same
time and size. -/
structure Independent : Prop where
  variant : a.request.variant = b.request.variant
  included : ∀ f first second, a.row blake3 f = some first → b.row blake3 f = some second →
    first.isMain = false ∧ second.isMain = false
  unchanged : ∀ f first second, a.row blake3 f = some first → b.row blake3 f = some second →
    first.stat = second.stat

/-- Under a key of a shared file that no kept row has taken, both units yield the same row. -/
structure SharedRowsAgree (db : Db) : Prop where
  records : ∀ f first second, a.row blake3 f = some first → b.row blake3 f = some second →
    ∀ k, ((db.content f).retained first).records k = none → ∀ v w,
      (a.yields blake3 f.2).records k = some v → (b.yields blake3 f.2).records k = some w → v = w
  functionTypes : ∀ f first second, a.row blake3 f = some first → b.row blake3 f = some second →
    ∀ k, ((db.content f).retained first).functionTypes k = none → ∀ v w,
      (a.yields blake3 f.2).functionTypes k = some v → (b.yields blake3 f.2).functionTypes k = some w → v = w

variable {blake3 a b}

theorem overlay_swap_iff (old first second : FileContent) (stat : first.stat = second.stat) :
    (old.overlay first).overlay second = (old.overlay second).overlay first ↔
      (∀ k, old.records k = none → ∀ v w, first.records k = some v → second.records k = some w → v = w) ∧
      ∀ k, old.functionTypes k = none → ∀ v w,
        first.functionTypes k = some v → second.functionTypes k = some w → v = w := by
  constructor
  · intro same
    exact ⟨fun k => (merge_swap_iff (fun _ _ => rfl) _ _ _).mp (congrFun (congrArg FileContent.records same) k),
      fun k => (merge_swap_iff (fun _ _ => rfl) _ _ _).mp (congrFun (congrArg FileContent.functionTypes same) k)⟩
  · intro ⟨records,functionTypes⟩
    exact FileContent.ext stat.symm
      (funext fun k => (merge_swap_iff (fun _ _ => rfl) _ _ _).mpr (records k))
      (funext fun k => merge_swap (fun _ _ => rfl) _ _ _)
      (funext fun k => (merge_swap_iff (fun _ _ => rfl) _ _ _).mpr (functionTypes k))
      (funext fun k => merge_swap (fun x y => congrArg Properties.mk (BitVec.or_comm _ _)) _ _ _)
      (funext fun k => merge_swap (fun _ _ => rfl) _ _ _)

private theorem content_both {jobs : Job → Prop} {db middle after : Db}
    (faithful : FingerprintFaithful blake3 jobs) (memberA : jobs a) (memberB : jobs b)
    (reached : Reachable blake3 jobs db) (first : a.store blake3 db = some middle)
    (second : b.store blake3 middle = some after) {f : Text × Text} {rowA rowB : StagingFile}
    (entryA : a.row blake3 f = some rowA) (entryB : b.row blake3 f = some rowB)
    (included : rowB.isMain = false) (same : rowA.stat = rowB.stat) :
    after.content f =
      (((db.content f).retained rowA).overlay (a.yields blake3 f.2)).overlay (b.yields blake3 f.2) := by
  have later : Reachable blake3 jobs middle := .store db middle a reached memberA (stores_of_store first)
  have between := content_store faithful memberA reached first f
  rw [entryA] at between
  have stat : (middle.content f).stat = some rowB.stat := by
    rw [between,← same]
    exact yields_stat entryA
  rw [content_store faithful memberB later second f,entryB]
  change FileContent.overlay (FileContent.retained _ rowB) _ = _
  rw [retained_of_stat included stat,between]
  rfl

/-- Two independent translation units may be stored in either order exactly when they agree on the
rows of their shared headers that are not stored yet. -/
theorem store_commutes_iff {jobs : Job → Prop} {db dbA dbB ab ba : Db}
    (faithful : FingerprintFaithful blake3 jobs) (memberA : jobs a) (memberB : jobs b)
    (independent : Independent blake3 a b) (reached : Reachable blake3 jobs db)
    (firstA : a.store blake3 db = some dbA) (thenB : b.store blake3 dbA = some ab)
    (firstB : b.store blake3 db = some dbB) (thenA : a.store blake3 dbB = some ba) :
    (∀ f, ab.content f = ba.content f) ↔ SharedRowsAgree blake3 a b db := by
  have laterA : Reachable blake3 jobs dbA := .store db dbA a reached memberA (stores_of_store firstA)
  have laterB : Reachable blake3 jobs dbB := .store db dbB b reached memberB (stores_of_store firstB)
  have shared : ∀ f rowA rowB, a.row blake3 f = some rowA → b.row blake3 f = some rowB →
      (ab.content f = ba.content f ↔
        (∀ k, ((db.content f).retained rowA).records k = none → ∀ v w,
          (a.yields blake3 f.2).records k = some v → (b.yields blake3 f.2).records k = some w → v = w) ∧
        ∀ k, ((db.content f).retained rowA).functionTypes k = none → ∀ v w,
          (a.yields blake3 f.2).functionTypes k = some v → (b.yields blake3 f.2).functionTypes k = some w →
            v = w) := by
    intro f rowA rowB entryA entryB
    obtain ⟨includedA,includedB⟩ := independent.included f rowA rowB entryA entryB
    have stat := independent.unchanged f rowA rowB entryA entryB
    have retained : (db.content f).retained rowB = (db.content f).retained rowA := by
      simp only [FileContent.retained,includedA,includedB,stat]
    rw [content_both faithful memberA memberB reached firstA thenB entryA entryB includedB stat,
      content_both faithful memberB memberA reached firstB thenA entryB entryA includedA stat.symm,retained]
    apply overlay_swap_iff
    rw [yields_stat entryA,yields_stat entryB,stat]
  constructor
  · intro same
    exact ⟨fun f rowA rowB entryA entryB => ((shared f rowA rowB entryA entryB).mp (same f)).1,
      fun f rowA rowB entryA entryB => ((shared f rowA rowB entryA entryB).mp (same f)).2⟩
  · intro agree f
    cases entryA : a.row blake3 f with
    | none =>
      have keepA := content_store faithful memberA reached firstA f
      have keepA' := content_store faithful memberA laterB thenA f
      have stepB := content_store faithful memberB laterA thenB f
      have stepB' := content_store faithful memberB reached firstB f
      rw [entryA] at keepA keepA'
      rw [keepA',stepB',stepB,keepA]
    | some rowA =>
      cases entryB : b.row blake3 f with
      | none =>
        have keepB := content_store faithful memberB laterA thenB f
        have keepB' := content_store faithful memberB reached firstB f
        have stepA := content_store faithful memberA reached firstA f
        have stepA' := content_store faithful memberA laterB thenA f
        rw [entryB] at keepB keepB'
        rw [keepB,stepA,stepA',keepB']
      | some rowB =>
        exact (shared f rowA rowB entryA entryB).mpr
          ⟨agree.records f rowA rowB entryA entryB,agree.functionTypes f rowA rowB entryA entryB⟩

end Orders

section Headers

-- for two jobs independence is a check of their staged files
theorem independent_of_check (blake3 : List UInt8 → Fingerprint) (a b : Job)
    (variant : a.request.variant = b.request.variant)
    (checked : ∀ x ∈ (a.stagedFiles blake3).entries, ∀ y ∈ (b.stagedFiles blake3).entries, x.1 = y.1 →
      (x.2.isMain = false ∧ y.2.isMain = false) ∧ x.2.stat = y.2.stat) : Independent blake3 a b := by
  have both : ∀ f first second, a.row blake3 f = some first → b.row blake3 f = some second →
      (first.isMain = false ∧ second.isMain = false) ∧ first.stat = second.stat := by
    intro f first second entryA entryB
    exact checked ⟨f.2,first⟩ (AList.mem_lookup_iff.mp (Job.row_some.mp entryA).2)
      ⟨f.2,second⟩ (AList.mem_lookup_iff.mp (Job.row_some.mp entryB).2) rfl
  exact ⟨variant,fun f first second entryA entryB => (both f first second entryA entryB).1,
    fun f first second entryA entryB => (both f first second entryA entryB).2⟩

private theorem headers_independent :
    Independent foldHash (headerJob "a.c" 10 ["f"]) (headerJob "b.c" 10 ["g"]) :=
  independent_of_check foldHash _ _ rfl (by decide +kernel)

private theorem headers_faithful :
    FingerprintFaithful foldHash (· ∈ [headerJob "a.c" 10 ["f"],headerJob "b.c" 10 ["g"]]) :=
  faithful_of_check foldHash _ (by decide +kernel)

theorem store_commutes_header : ∃ dbA dbB ab ba,
    (headerJob "a.c" 10 ["f"]).store foldHash .empty = some dbA ∧
    (headerJob "b.c" 10 ["g"]).store foldHash dbA = some ab ∧
    (headerJob "b.c" 10 ["g"]).store foldHash .empty = some dbB ∧
    (headerJob "a.c" 10 ["f"]).store foldHash dbB = some ba ∧
    ((∀ f, ab.content f = ba.content f) ↔
      SharedRowsAgree foldHash (headerJob "a.c" 10 ["f"]) (headerJob "b.c" 10 ["g"]) .empty) := by
  obtain ⟨dbA,firstA⟩ := @store_total foldHash (headerJob "a.c" 10 ["f"]) .empty
  obtain ⟨ab,thenB⟩ := @store_total foldHash (headerJob "b.c" 10 ["g"]) dbA
  obtain ⟨dbB,firstB⟩ := @store_total foldHash (headerJob "b.c" 10 ["g"]) .empty
  obtain ⟨ba,thenA⟩ := @store_total foldHash (headerJob "a.c" 10 ["f"]) dbB
  exact ⟨dbA,dbB,ab,ba,firstA,thenB,firstB,thenA,store_commutes_iff headers_faithful (by simp) (by simp)
    headers_independent .empty firstA thenB firstB thenA⟩

private theorem header_contexts :
    (((headerJob "a.c" 10 ["f"]).store foldHash .empty).bind ((headerJob "b.c" 10 ["g"]).store foldHash)).map
        (fun db => (db.content headerFile).records callKey) = some (some ⟨"f".toList,none,none,false⟩) ∧
      (((headerJob "b.c" 10 ["g"]).store foldHash .empty).bind ((headerJob "a.c" 10 ["f"]).store foldHash)).map
        (fun db => (db.content headerFile).records callKey) = some (some ⟨"g".toList,none,none,false⟩) :=
  ⟨by decide +kernel,by decide +kernel⟩

-- a header whose call is preprocessed into another function by each unit
theorem header_order_matters : ∃ dbA dbB ab ba,
    FingerprintFaithful foldHash (· ∈ [headerJob "a.c" 10 ["f"],headerJob "b.c" 10 ["g"]]) ∧
    Independent foldHash (headerJob "a.c" 10 ["f"]) (headerJob "b.c" 10 ["g"]) ∧
    (headerJob "a.c" 10 ["f"]).store foldHash .empty = some dbA ∧
    (headerJob "b.c" 10 ["g"]).store foldHash dbA = some ab ∧
    (headerJob "b.c" 10 ["g"]).store foldHash .empty = some dbB ∧
    (headerJob "a.c" 10 ["f"]).store foldHash dbB = some ba ∧ ¬ ∀ f, ab.content f = ba.content f := by
  obtain ⟨dbA,firstA⟩ := @store_total foldHash (headerJob "a.c" 10 ["f"]) .empty
  obtain ⟨ab,thenB⟩ := @store_total foldHash (headerJob "b.c" 10 ["g"]) dbA
  obtain ⟨dbB,firstB⟩ := @store_total foldHash (headerJob "b.c" 10 ["g"]) .empty
  obtain ⟨ba,thenA⟩ := @store_total foldHash (headerJob "a.c" 10 ["f"]) dbB
  refine ⟨dbA,dbB,ab,ba,headers_faithful,headers_independent,firstA,thenB,firstB,thenA,?_⟩
  intro same
  obtain ⟨contextF,contextG⟩ := header_contexts
  rw [firstA,Option.bind_some,thenB,Option.map_some,Option.some.injEq] at contextF
  rw [firstB,Option.bind_some,thenA,Option.map_some,Option.some.injEq,← same headerFile,contextF] at contextG
  exact absurd contextG (by decide)

end Headers
end Semindex.IndexDb
