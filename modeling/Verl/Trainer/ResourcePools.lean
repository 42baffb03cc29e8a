import Mathlib.Algebra.BigOperators.Ring.Finset
import Mathlib.Algebra.Order.Ring.Rat
import Mathlib.Data.Nat.Cast.Order.Ring
import Verl.Base.Dict
import Verl.Base.FirstFit

/-! `ResourcePoolManager._check_resource_available`: whether the requests of all pools can be
satisfied by the nodes of the cluster. -/
namespace Verl.Trainer
open FirstFit

/-- `available_resources_per_node()`, in its order: the `GPU` of each node. -/
structure Cluster where
  gpus : List (Option ℚ)
  nonneg : ∀ gpu ∈ gpus, ∀ amount, gpu = some amount → 0 ≤ amount

abbrev ResourcePoolSpec := Dict (List Nat)

section Model

def Cluster.nodeAvailableGpus (cluster : Cluster) : List ℚ :=
  cluster.gpus.map (fun gpu => gpu.getD 0)

/-- The loop over the nodes for one pool, with the `break`: `num_nodes` at its end, and the
available GPUs. -/
def satisfyPool (numGpus : ℚ) : Nat → List ℚ → Nat × List ℚ
  | numNodes, [] => (numNodes, [])
  | numNodes, availableGpus :: nodes =>
    if numGpus ≤ availableGpus then
      if numNodes - 1 = 0 then (0, (availableGpus - numGpus) :: nodes)
      else ((satisfyPool numGpus (numNodes - 1) nodes).1,
        (availableGpus - numGpus) :: (satisfyPool numGpus (numNodes - 1) nodes).2)
    else ((satisfyPool numGpus numNodes nodes).1,
      availableGpus :: (satisfyPool numGpus numNodes nodes).2)

def checkPool (nodeAvailableGpus : List ℚ) (entry : String × List Nat) : Py (List ℚ) := do
  let resourcePoolName := entry.1
  let numGpus ← pyGet entry.2 0
  let (numNodes, nodeAvailableGpus) := satisfyPool numGpus entry.2.length nodeAvailableGpus
  if 0 < numNodes then
    .error (.value s!"Resource pool {resourcePoolName}: {numGpus}*{numNodes} cannot be satisfied in this ray cluster")
  else return nodeAvailableGpus

def totalRequiredGpus (spec : ResourcePoolSpec) : Nat :=
  (spec.entries.flatMap (fun entry => entry.2)).sum

def checkResourceAvailable (cluster : Cluster) (spec : ResourcePoolSpec) : Py Unit := do
  if cluster.nodeAvailableGpus.sum < totalRequiredGpus spec then
    .error (.value "Total available GPUs is less than total desired GPUs")
  let _ ← spec.entries.foldlM checkPool cluster.nodeAvailableGpus
  return ()

end Model

section Requests

def requests (spec : ResourcePoolSpec) : List (List ℚ) :=
  spec.entries.map (fun entry => entry.2.map Nat.cast)

/-- All pools together: each count on one node, the nodes of a pool distinct, no node
over-committed. -/
def CanBePlaced (cluster : Cluster) (spec : ResourcePoolSpec) : Prop :=
  Placeable cluster.nodeAvailableGpus (requests spec)

/-- What the check reads of the pools: the first entry of each list and its length. -/
def firstEntries (spec : ResourcePoolSpec) : List (ℚ × Nat) :=
  spec.entries.map (fun entry => (↑(entry.2.headD 0), entry.2.length))

def largestEntries (spec : ResourcePoolSpec) : List (ℚ × Nat) :=
  spec.entries.map (fun entry => (((entry.2.foldr max 0 : Nat) : ℚ), entry.2.length))

/-- The entries of each list are equal, and no pool competes for nodes with the pools before it. -/
structure Uncontested (cluster : Cluster) (spec : ResourcePoolSpec) : Prop where
  nonempty : ∀ entry ∈ spec.entries, entry.2 ≠ []
  uniform : ∀ entry ∈ spec.entries, ∀ count ∈ entry.2, count = entry.2.headD 0
  undisputed : ∀ i (inside : i < (firstEntries spec).length),
    Undisputed cluster.nodeAvailableGpus ((firstEntries spec).take i) (firstEntries spec)[i]

/-- Each pool finds nodes for its largest entry beside those of all pools before it. -/
structure Spacious (cluster : Cluster) (spec : ResourcePoolSpec) : Prop where
  nonempty : ∀ entry ∈ spec.entries, entry.2 ≠ []
  room : ∀ i (inside : i < (largestEntries spec).length), (largestEntries spec)[i].2 ≤
    roomy ((((largestEntries spec).take i).map Prod.fst).sum + (largestEntries spec)[i].1)
      cluster.nodeAvailableGpus

/-- There are too few GPUs, or a pool has more entries than there are nodes with room for its
smallest one. -/
def Hopeless (cluster : Cluster) (spec : ResourcePoolSpec) : Prop :=
  cluster.nodeAvailableGpus.sum < totalRequiredGpus spec ∨ ∃ entry ∈ spec.entries,
    ∃ least ∈ entry.2, (∀ count ∈ entry.2, least ≤ count) ∧
    roomy (least : ℚ) cluster.nodeAvailableGpus < entry.2.length

end Requests

theorem nonneg_nodeAvailableGpus (cluster : Cluster) : ∀ c ∈ cluster.nodeAvailableGpus, 0 ≤ c := by
  intro c member
  obtain ⟨gpu, inside, rfl⟩ := List.mem_map.mp member
  cases gpu with
  | none => exact le_refl 0
  | some amount => exact cluster.nonneg _ inside amount rfl

theorem satisfyPool_eq_firstFit (numGpus : ℚ) (numNodes : Nat) (nodes : List ℚ) :
    satisfyPool numGpus (numNodes + 1) nodes = firstFit numGpus (numNodes + 1) nodes := by
  induction nodes generalizing numNodes with
  | nil => rfl
  | cons availableGpus nodes ih =>
    rw [satisfyPool, firstFit, Nat.add_sub_cancel]
    cases numNodes with
    | zero =>
      have nothing : firstFit numGpus 0 nodes = (0, nodes) := by cases nodes <;> rfl
      rw [if_pos rfl, ih, nothing]
    | succ numNodes => rw [if_neg (Nat.succ_ne_zero numNodes), ih, ih]

theorem checkPool_ok_iff {available available' : List ℚ} {entry : String × List Nat} :
    checkPool available entry = .ok available' ↔
      entry.2 ≠ [] ∧ (firstFit (entry.2.headD 0 : ℚ) entry.2.length available).1 = 0 ∧
      available' = (firstFit (entry.2.headD 0 : ℚ) entry.2.length available).2 := by
  obtain ⟨name, processOnNodes⟩ := entry
  cases processOnNodes with
  | nil => simp [checkPool, pyGet]
  | cons numGpus rest =>
    simp only [checkPool, pyGet, List.getElem?_cons_zero, ok_bind, List.length_cons,
      satisfyPool_eq_firstFit, List.headD_cons]
    split
    · rename_i missing
      simp [Nat.pos_iff_ne_zero.mp missing]
    · rename_i found
      simp [Nat.eq_zero_of_not_pos found, eq_comm]

theorem checkPools_ok_iff {available : List ℚ} {entries : List (String × List Nat)} :
    (∃ left, entries.foldlM checkPool available = .ok left) ↔
      (∀ entry ∈ entries, entry.2 ≠ []) ∧
        Passes available (entries.map (fun entry => (↑(entry.2.headD 0), entry.2.length))) := by
  induction entries generalizing available with
  | nil => simp [Passes]
  | cons entry entries ih =>
    simp only [List.foldlM_cons, bind_ok_iff, checkPool_ok_iff]
    rw [List.forall_mem_cons, List.map_cons, Passes]
    constructor
    · rintro ⟨left, next, ⟨nonempty, enough, rfl⟩, run⟩
      obtain ⟨others, passes⟩ := ih.mp ⟨left, run⟩
      exact ⟨⟨nonempty, others⟩, enough, passes⟩
    · rintro ⟨⟨nonempty, others⟩, enough, passes⟩
      obtain ⟨left, run⟩ := ih.mpr ⟨others, passes⟩
      exact ⟨left, _, ⟨nonempty, enough, rfl⟩, run⟩

theorem checkResourceAvailable_ok_iff (cluster : Cluster) (spec : ResourcePoolSpec) :
    checkResourceAvailable cluster spec = .ok () ↔
      (totalRequiredGpus spec : ℚ) ≤ cluster.nodeAvailableGpus.sum ∧
      (∀ entry ∈ spec.entries, entry.2 ≠ []) ∧
        Passes cluster.nodeAvailableGpus (firstEntries spec) := by
  have pools : (∃ left, spec.entries.foldlM checkPool cluster.nodeAvailableGpus = .ok left) ↔ _ :=
    checkPools_ok_iff
  unfold checkResourceAvailable
  by_cases short : cluster.nodeAvailableGpus.sum < totalRequiredGpus spec
  · simp only [if_pos short, error_bind]
    constructor
    · intro impossible
      cases impossible
    · intro enough
      exact absurd enough.1 (not_le.mpr short)
  · rw [if_neg short]
    constructor
    · intro run
      obtain ⟨left, run, -⟩ := bind_ok_iff.mp run
      exact ⟨not_lt.mp short, pools.mp ⟨left, run⟩⟩
    · intro enough
      obtain ⟨left, run⟩ := pools.mpr enough.2
      rw [run]
      rfl

section Conditions

variable {cluster : Cluster} {spec : ResourcePoolSpec}

theorem nonneg_requests : ∀ job ∈ requests spec, ∀ d ∈ job, (0 : ℚ) ≤ d := by
  intro job member d inside
  obtain ⟨entry, -, rfl⟩ := List.mem_map.mp member
  obtain ⟨count, -, rfl⟩ := List.mem_map.mp inside
  exact count.cast_nonneg

theorem nonneg_firstEntries : ∀ job ∈ firstEntries spec, (0 : ℚ) ≤ job.1 := by
  intro job member
  obtain ⟨entry, -, rfl⟩ := List.mem_map.mp member
  exact Nat.cast_nonneg _

theorem nonneg_largestEntries : ∀ job ∈ largestEntries spec, (0 : ℚ) ≤ job.1 := by
  intro job member
  obtain ⟨entry, -, rfl⟩ := List.mem_map.mp member
  exact Nat.cast_nonneg _

theorem requests_of_uniform
    (uniform : ∀ entry ∈ spec.entries, ∀ count ∈ entry.2, count = entry.2.headD 0) :
    requests spec = (firstEntries spec).map (fun e => List.replicate e.2 e.1) := by
  rw [requests, firstEntries, List.map_map]
  apply List.map_congr_left
  intro entry member
  have same := List.eq_replicate_of_mem (uniform entry member)
  simp only [Function.comp_apply]
  conv_lhs => rw [same, List.map_replicate]

theorem total_le_of_canBePlaced (placed : CanBePlaced cluster spec) :
    (totalRequiredGpus spec : ℚ) ≤ cluster.nodeAvailableGpus.sum := by
  have total := sum_le_of_placeable placed
  have same : ((requests spec).map List.sum).sum = (totalRequiredGpus spec : ℚ) := by
    rw [requests, totalRequiredGpus, List.map_map]
    induction spec.entries with
    | nil => rfl
    | cons entry entries ih =>
      rw [List.map_cons, List.sum_cons, ih, List.flatMap_cons, List.sum_append, Nat.cast_add,
        Nat.cast_list_sum entry.2]
      rfl
  rwa [same] at total

theorem ok_iff_of_uncontested (uncontested : Uncontested cluster spec) :
    checkResourceAvailable cluster spec = .ok () ↔ CanBePlaced cluster spec := by
  have same := requests_of_uniform uncontested.uniform
  rw [checkResourceAvailable_ok_iff, CanBePlaced, same]
  constructor
  · rintro ⟨-, -, passes⟩
    exact placeable_of_passes (nonneg_nodeAvailableGpus cluster) passes
  · intro placed
    have total := total_le_of_canBePlaced (same.symm ▸ placed : Placeable _ (requests spec))
    exact ⟨total, uncontested.nonempty,
      passes_of_placeable nonneg_firstEntries uncontested.undisputed placed⟩

theorem headD_mem {counts : List Nat} (some : counts ≠ []) : counts.headD 0 ∈ counts := by
  cases counts with
  | nil => exact absurd rfl some
  | cons first counts => exact List.mem_cons_self

theorem le_largest {counts : List Nat} {count : Nat} (member : count ∈ counts) :
    count ≤ counts.foldr max 0 := by
  induction counts with
  | nil => cases member
  | cons first counts ih =>
    rcases List.mem_cons.mp member with rfl | later
    · exact Nat.le_max_left _ _
    · exact (ih later).trans (Nat.le_max_right _ _)

/-- Beside the largest entries of the other pools there is room for all that the check looks at. -/
theorem placed_of_spacious (spacious : Spacious cluster spec) :
    CanBePlaced cluster spec ∧ checkResourceAvailable cluster spec = .ok () := by
  have largest := placeable_of_passes (nonneg_nodeAvailableGpus cluster)
    (passes_of_roomy nonneg_largestEntries spacious.room)
  have placed : CanBePlaced cluster spec := by
    refine largest.mono ?_
    rw [requests, largestEntries, List.map_map, List.forall₂_map_left_iff,
      List.forall₂_map_right_iff, List.forall₂_same]
    intro entry _
    rw [List.forall₂_iff_get]
    refine ⟨by simp, fun i inside _ => ?_⟩
    have below := le_largest (List.get_mem entry.2 ⟨i, by simpa using inside⟩)
    simpa using below
  have passes : Passes cluster.nodeAvailableGpus (firstEntries spec) := by
    refine passes_of_roomy nonneg_firstEntries fun i inside => ?_
    have length : i < spec.entries.length := by simpa [firstEntries] using inside
    have smaller : ∀ entry ∈ spec.entries,
      ((entry.2.headD 0 : Nat) : ℚ) ≤ ((entry.2.foldr max 0 : Nat) : ℚ) := fun entry member =>
      Nat.cast_le.mpr (le_largest (headD_mem (spacious.nonempty entry member)))
    have room := spacious.room i (by simpa [largestEntries] using length)
    simp only [largestEntries, List.getElem_map, ← List.map_take, List.map_map] at room
    simp only [firstEntries, List.getElem_map, ← List.map_take, List.map_map]
    refine room.trans (roomy_antitone
      (add_le_add (List.sum_le_sum fun entry member => ?_) (smaller _ (List.getElem_mem length))))
    exact smaller entry (List.mem_of_mem_take member)
  exact ⟨placed, (checkResourceAvailable_ok_iff cluster spec).mpr ⟨total_le_of_canBePlaced placed,
    spacious.nonempty, passes⟩⟩

theorem not_placed_of_hopeless (hopeless : Hopeless cluster spec) :
    ¬CanBePlaced cluster spec ∧ checkResourceAvailable cluster spec ≠ .ok () := by
  rcases hopeless with short | ⟨entry, member, least, inside, smallest, few⟩
  · refine ⟨fun placed => absurd (total_le_of_canBePlaced placed) (not_le.mpr short), fun ok => ?_⟩
    exact absurd ((checkResourceAvailable_ok_iff cluster spec).mp ok).1 (not_le.mpr short)
  · constructor
    · intro placed
      have found := length_le_roomy nonneg_requests placed (List.mem_map_of_mem member)
          fun d listed => by
        obtain ⟨count, here, rfl⟩ := List.mem_map.mp listed
        exact Nat.cast_le.mpr (smallest count here)
      rw [List.length_map] at found
      exact absurd few (not_lt.mpr found)
    · intro ok
      obtain ⟨-, nonempty, passes⟩ := (checkResourceAvailable_ok_iff cluster spec).mp ok
      have placed := placeable_of_passes (nonneg_nodeAvailableGpus cluster) passes
      have demands : ∀ job ∈ (firstEntries spec).map (fun e => List.replicate e.2 e.1), ∀ d ∈ job,
          (0 : ℚ) ≤ d := by
        intro job listed d here
        obtain ⟨e, first, rfl⟩ := List.mem_map.mp listed
        exact (List.eq_of_mem_replicate here).symm ▸ nonneg_firstEntries e first
      have found := length_le_roomy demands placed
          (List.mem_map_of_mem (List.mem_map_of_mem member)) (x := (least : ℚ)) fun d listed => by
        rw [List.eq_of_mem_replicate listed]
        exact Nat.cast_le.mpr (smallest _ (headD_mem (nonempty entry member)))
      rw [List.length_replicate] at found
      exact absurd few (not_lt.mpr found)

end Conditions

def clusterOf (gpus : List Nat) : Cluster :=
  ⟨gpus.map (fun n : Nat => some (n : ℚ)), by
    intro gpu member amount same
    obtain ⟨n, -, listed⟩ := List.mem_map.mp member
    obtain rfl : (n : ℚ) = amount := Option.some.inj (listed.trans same)
    exact Nat.cast_nonneg n⟩

/-- The check is right where the verdict hangs neither on the nodes that first fit takes nor on
entries that it does not read. -/
theorem raises_iff {cluster : Cluster} {spec : ResourcePoolSpec}
    (settled : Uncontested cluster spec ∨ Spacious cluster spec ∨ Hopeless cluster spec) :
    (∃ e, checkResourceAvailable cluster spec = .error e) ↔ ¬CanBePlaced cluster spec := by
  have verdict : checkResourceAvailable cluster spec = .ok () ↔ CanBePlaced cluster spec := by
    rcases settled with uncontested | spacious | hopeless
    · exact ok_iff_of_uncontested uncontested
    · exact iff_of_true (placed_of_spacious spacious).2 (placed_of_spacious spacious).1
    · exact iff_of_false (not_placed_of_hopeless hopeless).2 (not_placed_of_hopeless hopeless).1
  rw [← verdict]
  cases checkResourceAvailable cluster spec with
  | error e => simp
  | ok u => simp

theorem raises_iff_large_first :
    (∃ e, checkResourceAvailable (clusterOf [8, 4]) ⟨[("critic", [8]), ("actor", [4])], by decide⟩ =
    .error e) ↔ ¬CanBePlaced (clusterOf [8, 4]) ⟨[("critic", [8]), ("actor", [4])], by decide⟩ :=
  raises_iff (.inl ⟨by decide, by decide, by decide +kernel⟩)

/-- Two pools that fit, on nodes in the wrong order. -/
def twoPools : ResourcePoolSpec := ⟨[("actor", [4]), ("critic", [8])], by decide⟩

def unevenPool : ResourcePoolSpec := ⟨[("actor", [1, 2])], by decide⟩

/-- First fit puts the small pool on the large node; and the second entry of a list is not looked
at. -/
theorem check_is_wrong :
    ((∃ e, checkResourceAvailable (clusterOf [8, 4]) twoPools = .error e) ∧
      CanBePlaced (clusterOf [8, 4]) twoPools) ∧
    checkResourceAvailable (clusterOf [1, 1, 1]) unevenPool = .ok () ∧
      ¬CanBePlaced (clusterOf [1, 1, 1]) unevenPool := by
  have refused : checkResourceAvailable (clusterOf [8, 4]) twoPools ≠ .ok () := by decide +kernel
  refine ⟨⟨?_, ?_⟩, by decide +kernel, ?_⟩
  · cases ran : checkResourceAvailable (clusterOf [8, 4]) twoPools with
    | error e => exact ⟨e, rfl⟩
    | ok u => exact absurd ran refused
  · refine ⟨[[1], [0]], .cons ⟨rfl, by decide, by decide⟩ (.cons ⟨rfl, by decide, by decide⟩ .nil),
      ?_⟩
    decide +kernel
  · intro placed
    obtain ⟨nodes, assigns, rest⟩ := placeable_cons.mp placed
    match nodes, assigns with
    | [a, b], assigns =>
      have crowded : ∀ a < 3, ∀ b < 3,
          ¬∀ c ∈ remaining (clusterOf [1, 1, 1]).nodeAvailableGpus [1, 2] [a, b], 0 ≤ c := by
        decide +kernel
      have second : b ∈ [a, b] := List.mem_cons_of_mem a List.mem_cons_self
      exact crowded a (assigns.inside a List.mem_cons_self) b (assigns.inside b second)
        (placeable_nil.mp rest)

end Verl.Trainer
