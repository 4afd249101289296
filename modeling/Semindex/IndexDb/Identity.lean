import Semindex.IndexDb.Reachable

/-! Callers and identities. The primary key of `records` leaves out the context
and both USR ids, so of several items under one key only the first is stored;
an item finds its own caller and identity in the database only where all agree. -/
namespace Semindex.IndexDb
open Semindex.Relational

def RecordValue.identity (v : RecordValue) : Text × Option Id × Option Id := (v.context,v.usrId,v.contextUsrId)

section Identity
variable (blake3 : List UInt8 → Fingerprint) (job : Job)

/-- Every symbol and use that passes the filter has a record with its own context and identities. -/
def Job.KeepsIdentity (after : Db) : Prop :=
  ∀ row ∈ job.passing.flatMap (recordRows (job.paths blake3)),
    ∃ v, (after.content (job.request.variant,row.1.1)).records row.1.2 = some v ∧ v.identity = row.2.identity

-- items of the index under one path and key
def Job.IdentitiesAgree : Prop :=
  ∀ x ∈ job.passing.flatMap (recordRows (job.paths blake3)),
    ∀ y ∈ job.passing.flatMap (recordRows (job.paths blake3)), x.1 = y.1 → x.2.identity = y.2.identity

-- an item and the record that the merge leaves under its path and key
def Job.IdentitiesStored (db : Db) : Prop :=
  ∀ x ∈ job.passing.flatMap (recordRows (job.paths blake3)), ∀ row v,
    job.row blake3 (job.request.variant,x.1.1) = some row →
      ((db.content (job.request.variant,x.1.1)).retained row).records x.1.2 = some v →
        v.identity = x.2.identity

variable {blake3 job}

private theorem row_staged {x : (Text × RecordKey) × RecordValue}
    (inside : x ∈ job.passing.flatMap (recordRows (job.paths blake3))) :
    ∃ row, job.row blake3 (job.request.variant,x.1.1) = some row ∧ x ∈ (job.pathRows blake3 x.1.1).records := by
  obtain ⟨item,passing,member⟩ := List.mem_flatMap.mp inside
  obtain ⟨fingerprint,counted⟩ := @passing_counted blake3 _ _ passing
  have path := located_path (recordRows_located _) passing member
  obtain ⟨row,found⟩ := Option.isSome_iff_exists.mp (stagedFiles_counted counted)
  refine ⟨row,Job.row_some.mpr ⟨rfl,by rw [path]; exact found⟩,?_⟩
  exact List.mem_flatMap.mpr ⟨item,List.mem_filter.mpr ⟨passing,by simp [path]⟩,member⟩

/-- A store loses no caller and no identity exactly when all rows under one primary key, of the
index and of what its file keeps, have the same ones. -/
theorem store_keeps_identity_iff {jobs : Job → Prop} {db after : Db}
    (faithful : FingerprintFaithful blake3 jobs) (member : jobs job) (reached : Reachable blake3 jobs db)
    (stored : job.Stores blake3 db after) :
    job.KeepsIdentity blake3 after ↔ job.IdentitiesAgree blake3 ∧ job.IdentitiesStored blake3 db := by
  obtain ⟨st,staged,merged⟩ := stored
  obtain ⟨skip,again,produces⟩ := stagedBy_produces staged
  have consistent := reached.consistent
  constructor
  · intro keeps
    constructor
    · intro x insideX y insideY same
      obtain ⟨v,foundX,idX⟩ := keeps x insideX
      obtain ⟨w,foundY,idY⟩ := keeps y insideY
      rw [same] at foundX
      cases Option.some.inj (foundX.symm.trans foundY)
      exact idX.symm.trans idY
    · intro x inside row v entry old
      obtain ⟨w,found,id⟩ := keeps x inside
      rcases stored_record produces consistent merged entry found with kept | ⟨absent,_⟩
      · cases Option.some.inj (old.symm.trans kept)
        exact id
      · rw [absent] at old
        contradiction
  · intro ⟨agree,kept⟩ x inside
    obtain ⟨row,entry,onPath⟩ := row_staged inside
    have absorbed := (merge_accounts produces consistent merged (reached.accounted faithful) member entry).records x onPath
    obtain ⟨v,found⟩ := Option.isSome_iff_exists.mp absorbed.isSome
    refine ⟨v,found,?_⟩
    rcases stored_record produces consistent merged entry found with old | ⟨_,own⟩
    · exact kept x inside row v entry old
    · exact agree _ own x inside rfl

end Identity

theorem store_keeps_identity_header : ∃ after,
    (headerJob "a.c" 10 ["f"]).store foldHash .empty = some after ∧
      ((headerJob "a.c" 10 ["f"]).KeepsIdentity foldHash after ↔
        (headerJob "a.c" 10 ["f"]).IdentitiesAgree foldHash ∧
          (headerJob "a.c" 10 ["f"]).IdentitiesStored foldHash .empty) := by
  obtain ⟨after,stored⟩ := @store_total foldHash (headerJob "a.c" 10 ["f"]) .empty
  have faithful := faithful_of_check foldHash [headerJob "a.c" 10 ["f"]] (by decide +kernel)
  exact ⟨after,stored,store_keeps_identity_iff faithful (by simp) .empty (stores_of_store stored)⟩

-- two functions call `foo` through one macro body: the second caller is lost
theorem macro_calls_collide : ∃ after,
    FingerprintFaithful foldHash (· ∈ [headerJob "a.c" 10 ["f","g"]]) ∧
      Reachable foldHash (· ∈ [headerJob "a.c" 10 ["f","g"]]) .empty ∧
      (headerJob "a.c" 10 ["f","g"]).Stores foldHash .empty after ∧
      ¬ (headerJob "a.c" 10 ["f","g"]).KeepsIdentity foldHash after := by
  obtain ⟨after,stored⟩ := @store_total foldHash (headerJob "a.c" 10 ["f","g"]) .empty
  refine ⟨after,faithful_of_check foldHash _ (by decide +kernel),.empty,stores_of_store stored,?_⟩
  intro keeps
  obtain ⟨v,foundF,callerF⟩ := keeps ((headerFile.2,callKey),⟨"f".toList,none,none,false⟩) (by decide +kernel)
  obtain ⟨w,foundG,callerG⟩ := keeps ((headerFile.2,callKey),⟨"g".toList,none,none,false⟩) (by decide +kernel)
  cases Option.some.inj (foundF.symm.trans foundG)
  exact absurd (callerF.symm.trans callerG) (by decide)

end Semindex.IndexDb
