import Mathlib.Data.List.Nodup
import Mathlib.Data.Nat.Find
import Mathlib.Logic.Relation

/-! Breadth-first exploration of a graph that is given by the edges out of each
node. The levels are lists, in the order in which a queue would serve them, and a
branch remembers the path on which its node was first met. -/
namespace Semindex.Graph

section Distance
variable {ν : Type} (edge : ν → ν → Prop) (root : ν)

inductive Walk : Nat → ν → Prop where
  | root : Walk 0 root
  | step {n : Nat} {u v : ν} : Walk n u → edge u v → Walk (n+1) v

structure Distance (n : Nat) (v : ν) : Prop where
  walk : Walk edge root n v
  least : ∀ m, Walk edge root m v → n ≤ m

variable {edge root}

theorem Distance.unique {n m : Nat} {v : ν} (left : Distance edge root n v) (right : Distance edge root m v) :
    n = m := Nat.le_antisymm (left.least m right.walk) (right.least n left.walk)

theorem walk_zero {v : ν} (walk : Walk edge root 0 v) : v = root := by
  cases walk
  rfl

theorem walk_succ {n : Nat} {v : ν} : Walk edge root (n+1) v ↔ ∃ u, Walk edge root n u ∧ edge u v := by
  constructor
  · intro walk
    cases walk with
    | step before last => exact ⟨_,before,last⟩
  · intro ⟨u,before,last⟩
    exact .step before last

theorem distance_root : Distance edge root 0 root := ⟨.root,fun m _ => Nat.zero_le m⟩

theorem exists_distance {n : Nat} {v : ν} (walk : Walk edge root n v) : ∃ m ≤ n, Distance edge root m v := by
  classical
  have some : ∃ n, Walk edge root n v := ⟨n,walk⟩
  exact ⟨Nat.find some,Nat.find_min' some walk,Nat.find_spec some,fun m other => Nat.find_min' some other⟩

/-- A node at distance `n+1` has an edge from a node at distance `n`. -/
theorem Distance.previous {n : Nat} {v : ν} (far : Distance edge root (n+1) v) :
    ∃ u, Distance edge root n u ∧ edge u v := by
  obtain ⟨u,before,last⟩ := walk_succ.mp far.walk
  refine ⟨u,⟨before,?_⟩,last⟩
  intro m shorter
  have bound := far.least (m+1) (.step shorter last)
  omega

end Distance

section Leaving
variable {ν ε : Type} (out : ν → List ε)

structure Branch (ν : Type) where
  node : ν
  path : List ν
  deriving DecidableEq

def Branch.start (root : ν) : Branch ν := ⟨root,[root]⟩

def Branch.grow (branch : Branch ν) (v : ν) : Branch ν := ⟨v,v::branch.path⟩

def leaving (level : List (Branch ν)) : List (Branch ν × ε) :=
  level.flatMap (fun branch => (out branch.node).map (fun e => (branch,e)))

variable {out}

theorem mem_leaving {branches : List (Branch ν)} {step : Branch ν × ε} :
    step ∈ leaving out branches ↔ step.1 ∈ branches ∧ step.2 ∈ out step.1.node := by
  obtain ⟨branch,e⟩ := step
  simp only [leaving,List.mem_flatMap,List.mem_map,Prod.mk.injEq]
  constructor
  · intro ⟨other,listed,edge,outgoing,same,equal⟩
    subst same equal
    exact ⟨listed,outgoing⟩
  · intro ⟨listed,outgoing⟩
    exact ⟨branch,listed,e,outgoing,rfl,rfl⟩

theorem leaving_append (first second : List (Branch ν)) :
    leaving out (first ++ second) = leaving out first ++ leaving out second := List.flatMap_append

theorem leaving_one (branch : Branch ν) :
    leaving out [branch] = (out branch.node).map (fun e => (branch,e)) := by simp [leaving]

end Leaving

section Joins
variable {ν ε : Type} (target : ε → ν)

def Joins (steps : List (Branch ν × ε)) (u v : ν) : Prop := ∃ step ∈ steps, step.1.node = u ∧ target step.2 = v

/-- Some edge leads to a node on the path of its branch. -/
def TurnsBack (steps : List (Branch ν × ε)) : Prop := ∃ step ∈ steps, target step.2 ∈ step.1.path

variable {target}

theorem Joins.mono {few steps : List (Branch ν × ε)} (fewer : ∀ step ∈ few, step ∈ steps) {u v : ν}
    (joined : Joins target few u v) : Joins target steps u v := by
  obtain ⟨step,member,ends⟩ := joined
  exact ⟨step,fewer step member,ends⟩

end Joins

section Discover
variable {ν ε : Type} [DecidableEq ν] (target : ε → ν)

/-- The branches that are new when the edges are met in this order. -/
def discover : List ν → List (Branch ν × ε) → List (Branch ν)
  | _,[] => []
  | seen,step::steps =>
    if target step.2 ∈ seen then discover seen steps
    else step.1.grow (target step.2) :: discover (seen ++ [target step.2]) steps

def seenAfter (seen : List ν) (steps : List (Branch ν × ε)) : List ν :=
  seen ++ (discover target seen steps).map Branch.node

variable {target} {seen : List ν}

@[simp] theorem discover_nil : discover target seen [] = [] := rfl

@[simp] theorem seenAfter_nil : seenAfter target seen [] = seen := by simp [seenAfter]

theorem seenAfter_cons (step : Branch ν × ε) (steps : List (Branch ν × ε)) :
    seenAfter target seen (step::steps) =
      seenAfter target (if target step.2 ∈ seen then seen else seen ++ [target step.2]) steps := by
  by_cases known : target step.2 ∈ seen <;> simp [seenAfter,discover,known,Branch.grow]

theorem discover_append (first second : List (Branch ν × ε)) :
    discover target seen (first ++ second) =
      discover target seen first ++ discover target (seenAfter target seen first) second := by
  induction first generalizing seen with
  | nil => simp
  | cons step steps ih =>
    rw [List.cons_append,seenAfter_cons]
    by_cases known : target step.2 ∈ seen <;> simp [discover,known,ih]

theorem seenAfter_append (first second : List (Branch ν × ε)) :
    seenAfter target seen (first ++ second) = seenAfter target (seenAfter target seen first) second := by
  simp only [seenAfter,discover_append,List.map_append,List.append_assoc]

theorem discover_one (step : Branch ν × ε) : discover target seen [step] =
    if target step.2 ∈ seen then [] else [step.1.grow (target step.2)] := by
  simp [discover]

theorem mem_seenAfter {steps : List (Branch ν × ε)} {v : ν} :
    v ∈ seenAfter target seen steps ↔ v ∈ seen ∨ ∃ step ∈ steps, target step.2 = v := by
  induction steps generalizing seen with
  | nil => simp
  | cons step steps ih =>
    rw [seenAfter_cons,ih]
    simp only [List.mem_cons,exists_eq_or_imp]
    by_cases known : target step.2 ∈ seen
    · rw [if_pos known]
      constructor
      · intro met
        rcases met with old | later
        · exact .inl old
        · exact .inr (.inr later)
      · intro met
        rcases met with old | now | later
        · exact .inl old
        · exact .inl (now ▸ known)
        · exact .inr later
    · rw [if_neg known,List.mem_append,List.mem_singleton,or_assoc,eq_comm]

theorem mem_discover {steps : List (Branch ν × ε)} {branch : Branch ν}
    (member : branch ∈ discover target seen steps) :
    ∃ step ∈ steps, target step.2 ∉ seen ∧ branch = step.1.grow (target step.2) := by
  induction steps generalizing seen with
  | nil => cases member
  | cons step steps ih =>
    rw [discover] at member
    split at member
    · obtain ⟨other,listed,new,same⟩ := ih member
      exact ⟨other,List.mem_cons_of_mem _ listed,new,same⟩
    · rename_i new
      rcases List.mem_cons.mp member with first | later
      · exact ⟨step,List.mem_cons_self,new,first⟩
      · obtain ⟨other,listed,fresh,same⟩ := ih later
        exact ⟨other,List.mem_cons_of_mem _ listed,fun old => fresh (List.mem_append_left _ old),same⟩

theorem seenAfter_nodup {steps : List (Branch ν × ε)} (nodup : seen.Nodup) :
    (seenAfter target seen steps).Nodup := by
  induction steps generalizing seen with
  | nil => simpa using nodup
  | cons step steps ih =>
    rw [seenAfter_cons]
    apply ih
    split
    · exact nodup
    · rename_i new
      exact List.Nodup.append nodup (List.nodup_singleton _) (by simpa using new)

theorem discover_nodes_nodup {steps : List (Branch ν × ε)} (nodup : seen.Nodup) :
    ((discover target seen steps).map Branch.node).Nodup :=
  (List.nodup_append.mp (seenAfter_nodup nodup)).2.1

end Discover

section Levels
variable {ν ε : Type} [DecidableEq ν] (out : ν → List ε) (target : ε → ν) (root : ν)

/-- The edges that leave the levels below `k`, and the level `k`. -/
def explored : Nat → List (Branch ν × ε) × List (Branch ν)
  | 0 => ([],[Branch.start root])
  | k+1 =>
    let steps := (explored k).1 ++ leaving out (explored k).2
    (steps,discover target (seenAfter target [root] (explored k).1) (leaving out (explored k).2))

def edgesWithin (k : Nat) : List (Branch ν × ε) := (explored out target root k).1

def level (k : Nat) : List (Branch ν) := (explored out target root k).2

/-- The nodes met on the edges, the root first. -/
def seenOn (steps : List (Branch ν × ε)) : List ν := seenAfter target [root] steps

def Edge (u v : ν) : Prop := ∃ e ∈ out u, target e = v

variable {out target root}

@[simp] theorem edgesWithin_zero : edgesWithin out target root 0 = [] := rfl

theorem edgesWithin_succ (k : Nat) : edgesWithin out target root (k+1) =
    edgesWithin out target root k ++ leaving out (level out target root k) := rfl

theorem level_succ (k : Nat) : level out target root (k+1) =
    discover target (seenOn target root (edgesWithin out target root k)) (leaving out (level out target root k)) := rfl

theorem mem_edgesWithin {d : Nat} {step : Branch ν × ε} : step ∈ edgesWithin out target root d ↔
    ∃ k < d, step.1 ∈ level out target root k ∧ step.2 ∈ out step.1.node := by
  induction d with
  | zero => simp
  | succ d ih =>
    rw [edgesWithin_succ,List.mem_append,ih,mem_leaving]
    constructor
    · intro met
      rcases met with ⟨k,low,listed⟩ | listed
      · exact ⟨k,by omega,listed⟩
      · exact ⟨d,by omega,listed⟩
    · intro ⟨k,low,listed⟩
      by_cases last : k = d
      · subst last
        exact .inr listed
      · exact .inl ⟨k,by omega,listed⟩

theorem edgesWithin_start {k d : Nat} (low : k ≤ d) :
    edgesWithin out target root k <+: edgesWithin out target root d := by
  induction d with
  | zero => simp [Nat.le_zero.mp low]
  | succ d ih =>
    by_cases last : k = d + 1
    · subst last
      exact List.prefix_refl _
    · exact (ih (by omega)).trans (List.prefix_append _ _)

/-- Below an empty level nothing is explored. -/
theorem edgesWithin_stop {k d : Nat} (none : level out target root k = []) (low : k ≤ d) :
    level out target root d = [] ∧ edgesWithin out target root d = edgesWithin out target root k := by
  induction d with
  | zero => exact Nat.le_zero.mp low ▸ ⟨none,rfl⟩
  | succ d ih =>
    by_cases last : k = d + 1
    · exact last ▸ ⟨none,rfl⟩
    · obtain ⟨empty,same⟩ := ih (by omega)
      rw [level_succ,edgesWithin_succ,empty,same]
      simp [leaving]

theorem path_length {k : Nat} {branch : Branch ν} (member : branch ∈ level out target root k) :
    branch.path.length = k+1 := by
  induction k generalizing branch with
  | zero =>
    obtain rfl := List.mem_singleton.mp member
    rfl
  | succ k ih =>
    obtain ⟨step,leaves,_,rfl⟩ := mem_discover member
    simp [Branch.grow,ih (mem_leaving.mp leaves).1]

theorem mem_seenOn {steps : List (Branch ν × ε)} {v : ν} :
    v ∈ seenOn target root steps ↔ v = root ∨ ∃ step ∈ steps, target step.2 = v := by
  rw [seenOn,mem_seenAfter,List.mem_singleton]

theorem seenOn_nodup (steps : List (Branch ν × ε)) : (seenOn target root steps).Nodup :=
  seenAfter_nodup (List.nodup_singleton root)

theorem level_nodes_nodup (k : Nat) : ((level out target root k).map Branch.node).Nodup := by
  cases k with
  | zero => simp [level,explored]
  | succ k => exact discover_nodes_nodup (seenOn_nodup _)

private theorem levels_spec (k : Nat) :
    (∀ v, v ∈ seenOn target root (edgesWithin out target root k) ↔ ∃ m ≤ k, Walk (Edge out target) root m v) ∧
      ∀ v, (∃ branch ∈ level out target root k, branch.node = v) ↔ Distance (Edge out target) root k v := by
  induction k with
  | zero =>
    constructor
    · intro v
      constructor
      · intro met
        obtain rfl : v = root := by simpa [mem_seenOn] using met
        exact ⟨0,Nat.le_refl 0,.root⟩
      · intro ⟨m,low,walk⟩
        obtain rfl := Nat.le_zero.mp low
        exact mem_seenOn.mpr (.inl (walk_zero walk))
    · intro v
      constructor
      · intro ⟨branch,member,same⟩
        obtain rfl := List.mem_singleton.mp member
        exact same ▸ distance_root
      · intro near
        exact ⟨_,List.mem_singleton.mpr rfl,(walk_zero near.walk).symm⟩
  | succ k ih =>
    obtain ⟨seen,current⟩ := ih
    have crossing (v : ν) : (∃ step ∈ leaving out (level out target root k), target step.2 = v) ↔
        ∃ u, Distance (Edge out target) root k u ∧ Edge out target u v := by
      constructor
      · intro ⟨step,leaves,same⟩
        obtain ⟨listed,outgoing⟩ := mem_leaving.mp leaves
        exact ⟨step.1.node,(current _).mp ⟨step.1,listed,rfl⟩,step.2,outgoing,same⟩
      · intro ⟨u,near,e,outgoing,same⟩
        obtain ⟨branch,listed,here⟩ := (current u).mpr near
        exact ⟨(branch,e),mem_leaving.mpr ⟨listed,here.symm ▸ outgoing⟩,same⟩
    have grown (v : ν) : v ∈ seenOn target root (edgesWithin out target root (k+1)) ↔
        ∃ m ≤ k+1, Walk (Edge out target) root m v := by
      rw [edgesWithin_succ,seenOn,seenAfter_append,mem_seenAfter,crossing]
      change v ∈ seenOn target root _ ∨ _ ↔ _
      rw [seen]
      constructor
      · intro met
        rcases met with ⟨m,low,walk⟩ | ⟨u,near,last⟩
        · exact ⟨m,by omega,walk⟩
        · exact ⟨k+1,Nat.le_refl _,.step near.walk last⟩
      · intro ⟨m,low,walk⟩
        obtain ⟨n,short,far⟩ := exists_distance walk
        by_cases old : n ≤ k
        · exact .inl ⟨n,old,far.walk⟩
        · obtain rfl : n = k+1 := by omega
          exact .inr far.previous
    refine ⟨grown,?_⟩
    intro v
    constructor
    · intro ⟨branch,member,same⟩
      rw [level_succ] at member
      obtain ⟨step,leaves,new,rfl⟩ := mem_discover member
      subst same
      change Distance _ _ _ (target step.2)
      obtain ⟨u,near,last⟩ := (crossing _).mp ⟨step,leaves,rfl⟩
      refine ⟨.step near.walk last,?_⟩
      intro m walk
      by_contra shorter
      exact new ((seen _).mpr ⟨m,by omega,walk⟩)
    · intro far
      have met := (crossing v).mpr far.previous
      have new : v ∉ seenOn target root (edgesWithin out target root k) := by
        intro old
        obtain ⟨m,low,walk⟩ := (seen v).mp old
        have bound := far.least m walk
        omega
      have listed : v ∈ seenAfter target (seenOn target root (edgesWithin out target root k))
          (leaving out (level out target root k)) := mem_seenAfter.mpr (.inr met)
      rw [seenAfter,List.mem_append] at listed
      exact List.mem_map.mp (listed.resolve_left new)

theorem mem_seenOn_edgesWithin {k : Nat} {v : ν} :
    v ∈ seenOn target root (edgesWithin out target root k) ↔ ∃ m ≤ k, Walk (Edge out target) root m v :=
  (levels_spec k).1 v

/-- Level `k` has a branch for each node at distance `k`. -/
theorem level_iff {k : Nat} {v : ν} :
    (∃ branch ∈ level out target root k, branch.node = v) ↔ Distance (Edge out target) root k v :=
  (levels_spec k).2 v

theorem level_distance {k : Nat} {branch : Branch ν} (member : branch ∈ level out target root k) :
    Distance (Edge out target) root k branch.node := level_iff.mp ⟨branch,member,rfl⟩

/-- The explored edges leave the nodes nearer than `d`, behind a path of their distance. -/
theorem exists_step_iff {d k : Nat} {e : ε} :
    (∃ step ∈ edgesWithin out target root d, step.2 = e ∧ step.1.path.length = k+1) ↔
      k < d ∧ ∃ u, Distance (Edge out target) root k u ∧ e ∈ out u := by
  constructor
  · intro ⟨step,member,same,length⟩
    subst same
    obtain ⟨j,low,listed,outgoing⟩ := mem_edgesWithin.mp member
    obtain rfl : j = k := Nat.succ.inj ((path_length listed).symm.trans length)
    exact ⟨low,step.1.node,level_distance listed,outgoing⟩
  · intro ⟨low,u,near,outgoing⟩
    obtain ⟨branch,listed,here⟩ := level_iff.mpr near
    exact ⟨(branch,e),mem_edgesWithin.mpr ⟨k,low,listed,here.symm ▸ outgoing⟩,rfl,path_length listed⟩

theorem edgesWithin_sorted (d : Nat) : (edgesWithin out target root d).Pairwise
    (fun first second => first.1.path.length ≤ second.1.path.length) := by
  induction d with
  | zero => simp
  | succ d ih =>
    rw [edgesWithin_succ,List.pairwise_append]
    have length {step : Branch ν × ε} (leaves : step ∈ leaving out (level out target root d)) :
        step.1.path.length = d+1 := path_length (mem_leaving.mp leaves).1
    refine ⟨ih,List.pairwise_of_forall_mem_list ?_,?_⟩
    · intro first left second right
      rw [length left,length right]
    · intro first left second right
      obtain ⟨k,low,listed,_⟩ := mem_edgesWithin.mp left
      rw [length right,path_length listed]
      omega

section Source
variable {source : ε → Option ν} (sourced : ∀ u, ∀ e ∈ out u, source e = some u)
include sourced

/-- Each explored edge is explored once. -/
theorem edgesWithin_nodup (nodup : ∀ u, (out u).Nodup) (d : Nat) :
    ((edgesWithin out target root d).map Prod.snd).Nodup := by
  induction d with
  | zero => simp
  | succ d ih =>
    rw [edgesWithin_succ,List.map_append]
    refine List.Nodup.append ih ?_ ?_
    · have edges : (leaving out (level out target root d)).map Prod.snd =
          ((level out target root d).map Branch.node).flatMap out := by
        simp [leaving,List.map_flatMap,List.flatMap_map,Function.comp_def]
      rw [edges,List.nodup_flatMap]
      refine ⟨fun u _ => nodup u,?_⟩
      refine (level_nodes_nodup d).imp ?_
      intro u v apart e left right
      exact apart (Option.some.inj ((sourced u e left).symm.trans (sourced v e right)))
    · intro e left right
      obtain ⟨first,old,same⟩ := List.mem_map.mp left
      obtain ⟨second,new,equal⟩ := List.mem_map.mp right
      obtain ⟨k,low,listed,outgoing⟩ := mem_edgesWithin.mp old
      obtain ⟨here,leaves⟩ := mem_leaving.mp new
      rw [same] at outgoing
      rw [equal] at leaves
      have one : first.1.node = second.1.node :=
        Option.some.inj ((sourced _ e outgoing).symm.trans (sourced _ e leaves))
      have far := level_distance here
      rw [← one] at far
      exact absurd ((level_distance listed).unique far) (by omega)

end Source

section Cycles

theorem path_reaches {k : Nat} {branch : Branch ν} (member : branch ∈ level out target root k) :
    ∀ v ∈ branch.path, Relation.ReflTransGen (Joins target (edgesWithin out target root k)) v branch.node := by
  induction k generalizing branch with
  | zero =>
    obtain rfl := List.mem_singleton.mp member
    intro v here
    obtain rfl := List.mem_singleton.mp here
    exact .refl
  | succ k ih =>
    obtain ⟨step,leaves,_,rfl⟩ := mem_discover member
    intro v listed
    rcases List.mem_cons.mp listed with here | before
    · subst here
      exact .refl
    · have reached := ih (mem_leaving.mp leaves).1 v before
      refine .tail (Relation.ReflTransGen.mono ?_ _ _ reached) ⟨step,?_,rfl,rfl⟩
      · intro u w joined
        exact joined.mono (fun other old => List.mem_append_left _ old)
      · exact List.mem_append_right _ leaves

theorem path_seen {k : Nat} {branch : Branch ν} (member : branch ∈ level out target root k) :
    ∀ v ∈ branch.path, v ∈ seenOn target root (edgesWithin out target root k) := by
  intro v listed
  rcases Relation.ReflTransGen.cases_head (path_reaches member v listed) with here | ⟨w,first,_⟩
  · exact here ▸ mem_seenOn_edgesWithin.mpr ⟨k,Nat.le_refl k,(level_distance member).walk⟩
  · obtain ⟨step,old,same,_⟩ := first
    obtain ⟨j,low,start,_⟩ := mem_edgesWithin.mp old
    exact same ▸ mem_seenOn_edgesWithin.mpr ⟨j,Nat.le_of_lt low,(level_distance start).walk⟩

/-- An edge back to the path of its branch closes a cycle of explored edges. -/
theorem cycle_of_turnsBack {d : Nat} (back : TurnsBack target (edgesWithin out target root d)) :
    ∃ v, Relation.TransGen (Joins target (edgesWithin out target root d)) v v := by
  obtain ⟨step,member,returns⟩ := back
  obtain ⟨k,low,listed,_⟩ := mem_edgesWithin.mp member
  have wider (u w : ν) (joined : Joins target (edgesWithin out target root k) u w) :
      Joins target (edgesWithin out target root d) u w :=
    joined.mono (fun other old => (edgesWithin_start (Nat.le_of_lt low)).subset old)
  have around := Relation.ReflTransGen.mono wider _ _ (path_reaches listed _ returns)
  exact ⟨_,.tail' around ⟨step,member,rfl,rfl⟩⟩

end Cycles
end Levels
end Semindex.Graph
