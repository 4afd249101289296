import Mathlib.Data.List.Nodup

/-! A place that holds one version of something at a time, or none, where each new
version gets a stamp that none has had before. A stamp seen twice is then one
version, which the place has held all the while. -/
namespace Semindex.Versions

section History
variable {Version Stamp : Type} (stamp : Version → Stamp)

/-- What the place holds, and all the versions it has held. -/
structure History where
  now : Option Version
  versions : List Version
  listed : ∀ version ∈ now, version ∈ versions
  distinct : (versions.map stamp).Nodup

variable {stamp}

namespace History

def put (history : History stamp) (version : Version) (fresh : stamp version ∉ history.versions.map stamp) : History stamp where
  now := some version
  versions := version::history.versions
  listed := fun other same => by simp_all
  distinct := List.nodup_cons.mpr ⟨fresh,history.distinct⟩

def remove (history : History stamp) : History stamp where
  now := none
  versions := history.versions
  listed := fun _ none => by cases none
  distinct := history.distinct

/-- The place is written, or emptied. -/
inductive Writes (history : History stamp) : History stamp → Prop
  | put (version : Version) (fresh : stamp version ∉ history.versions.map stamp) : Writes history (history.put version fresh)
  | remove : Writes history history.remove

variable {history next : History stamp} {version other : Version}

theorem stamped (listed : version ∈ history.versions) (held : history.now = some other) (same : stamp other = stamp version) :
    other = version :=
  List.inj_on_of_nodup_map history.distinct (history.listed other held) listed same

theorem Writes.keeps (writes : Writes history next) (listed : version ∈ history.versions) : version ∈ next.versions := by
  cases writes with
  | put other fresh => exact List.mem_cons_of_mem _ listed
  | remove => exact listed

/-- What is written is none of the versions before: one that is gone does not come back. -/
theorem Writes.gone (writes : Writes history next) (listed : version ∈ history.versions) : next.now ≠ some version := by
  cases writes with
  | put other fresh =>
    intro same
    cases same
    exact fresh (List.mem_map_of_mem listed)
  | remove => exact fun same => by cases same

end History
end History
end Semindex.Versions
