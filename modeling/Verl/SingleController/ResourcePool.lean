import Mathlib.Algebra.BigOperators.Group.List.Basic
import Mathlib.Algebra.GroupWithZero.Nat
import Mathlib.Data.List.Sort
import Verl.Base.Text

/-! `RayWorkerGroup._init_with_resource_pool`: the workers on the placement groups of a
resource pool, their ranks and the environment they start with. The register center, which
the worker of rank 0 creates, is a parameter; GPU fractions are left out. -/
namespace Verl.SingleController

/-- `nodeIp` is the address of the node that holds the first bundle. -/
structure PlacementGroup where
  id : Nat
  bundleCount : Nat
  nodeIp : Text
  deriving DecidableEq

/-- `RayResourcePool` with its placement groups, one for each entry of `process_on_nodes`. -/
structure RayResourcePool where
  processOnNodes : List Nat
  pgs : List PlacementGroup
  bundles : pgs.map PlacementGroup.bundleCount = processOnNodes
  distinct : (pgs.map PlacementGroup.id).Nodup

def RayResourcePool.worldSize (pool : RayResourcePool) : Nat := pool.processOnNodes.sum

def sortPlacementGroupByNodeIp (pgs : List PlacementGroup) : List PlacementGroup :=
  pgs.insertionSort (fun a b => Text.le a.nodeIp b.nodeIp = true)

/-- A worker: where it runs and the variables of its environment. -/
structure Worker where
  name : Text
  placementGroup : PlacementGroup
  bundleIdx : Nat
  worldSize : Nat
  rank : Nat
  wgPrefix : Text
  localWorldSize : Nat
  localRank : Nat
  master : Option (Text × Text)

structure RayWorkerGroup where
  master : Option (Text × Text)
  workers : List Worker

section Init

variable (namePrefix ciaName : Text) (rankZeroInfo : Option (Text × Text))

/-- The body of the inner loop; the rank is the number of workers so far. -/
def createWorker (worldSize localWorldSize pgIdx : Nat) (pg : PlacementGroup)
    (group : RayWorkerGroup) (localRank : Nat) :
    Py RayWorkerGroup := do
  let rank := group.workers.length
  let name := namePrefix ++ ciaName ++ '_' :: Text.ofNat pgIdx ++ ':' :: Text.ofNat localRank
  let master := if rank ≠ 0 then group.master else none
  let workers := group.workers ++
    [⟨name, pg, localRank, worldSize, rank, namePrefix, localWorldSize, localRank, master⟩]
  if rank = 0 then
    match rankZeroInfo with
    | some info => return ⟨some info, workers⟩
    | none => .error (.assertion "failed to get register_center_actor")
  else return ⟨group.master, workers⟩

def createWorkersOn (worldSize localWorldSize : Nat) (group : RayWorkerGroup)
    (entry : PlacementGroup × Nat) :
    Py RayWorkerGroup := do
  let groupName := String.ofList namePrefix
  pyAssert (localWorldSize ≤ entry.1.bundleCount) s!"when generating for {groupName}, for the "
  (List.range localWorldSize).foldlM
    (createWorker namePrefix ciaName rankZeroInfo worldSize localWorldSize entry.2 entry.1) group

def initWithResourcePool (pool : RayResourcePool) : Py (List Worker) := do
  let localWorldSize ← pyGet pool.processOnNodes 0
  let group ← (sortPlacementGroupByNodeIp pool.pgs).zipIdx.foldlM
    (createWorkersOn namePrefix ciaName rankZeroInfo pool.worldSize localWorldSize) ⟨none, []⟩
  return group.workers

end Init

def Worker.place (worker : Worker) : PlacementGroup × Nat × Nat :=
  (worker.placementGroup, worker.localRank, worker.localWorldSize)

def onNode (workers : List Worker) (pg : PlacementGroup) : List Worker :=
  workers.filter (fun worker => worker.placementGroup = pg)

/-- As many workers as processes, each rank once, and on every node its local ranks. -/
structure Covers (pool : RayResourcePool) (workers : List Worker) : Prop where
  count : workers.length = pool.worldSize
  ranks : (workers.map Worker.rank).Perm (List.range pool.worldSize)
  localRanks : ∀ pg ∈ pool.pgs, (onNode workers pg).map Worker.localRank = List.range pg.bundleCount
  localWorldSize : ∀ pg ∈ pool.pgs, ∀ worker ∈ onNode workers pg,
    worker.localWorldSize = pg.bundleCount

section Loops

variable (namePrefix ciaName : Text) (info : Text × Text) (worldSize localWorldSize : Nat)

theorem createWorker_ok (pgIdx : Nat) (pg : PlacementGroup) (group : RayWorkerGroup)
    (localRank : Nat) :
    ∃ worker master, createWorker namePrefix ciaName (some info) worldSize localWorldSize pgIdx pg
      group localRank =
        .ok ⟨master, group.workers ++ [worker]⟩ ∧
      worker.rank = group.workers.length ∧ worker.place = (pg, localRank, localWorldSize) := by
  unfold createWorker
  by_cases first : group.workers.length = 0
  · simp only [if_pos first]
    exact ⟨_, _, rfl, rfl, rfl⟩
  · simp only [if_neg first]
    exact ⟨_, _, rfl, rfl, rfl⟩

def Numbered (workers : List Worker) : Prop := workers.map Worker.rank = List.range workers.length

theorem Numbered.append {workers : List Worker} (numbered : Numbered workers) {worker : Worker}
    (rank : worker.rank = workers.length) : Numbered (workers ++ [worker]) := by
  unfold Numbered
  rw [List.map_append, numbered, List.length_append, List.length_singleton, List.range_succ,
    List.map_singleton, rank]

def placesOn (localWorldSize : Nat) (pg : PlacementGroup) : List (PlacementGroup × Nat × Nat) :=
  (List.range localWorldSize).map (fun localRank => (pg, localRank, localWorldSize))

theorem createWorkers_ok (pgIdx : Nat) (pg : PlacementGroup) {group : RayWorkerGroup}
    (numbered : Numbered group.workers) (n : Nat) : ∃ group', (List.range n).foldlM
        (createWorker namePrefix ciaName (some info) worldSize localWorldSize pgIdx pg) group =
          .ok group' ∧
      Numbered group'.workers ∧ group'.workers.map Worker.place =
        group.workers.map Worker.place ++
          (List.range n).map (fun localRank => (pg, localRank, localWorldSize)) := by
  induction n with
  | zero => exact ⟨group, rfl, numbered, by simp⟩
  | succ n ih =>
    obtain ⟨before, runs, inOrder, places⟩ := ih
    obtain ⟨worker, master, created, rank, place⟩ :=
      createWorker_ok namePrefix ciaName info worldSize localWorldSize pgIdx pg before n
    refine ⟨⟨master, before.workers ++ [worker]⟩, ?_, inOrder.append rank, ?_⟩
    · rw [List.range_succ, List.foldlM_append, runs, ok_bind, List.foldlM_cons, created]
      rfl
    · rw [List.map_append, places, List.range_succ, List.map_append, List.append_assoc,
        List.map_singleton, place]
      rfl

theorem createAll_ok {entries : List (PlacementGroup × Nat)}
    (fits : ∀ entry ∈ entries, localWorldSize ≤ entry.1.bundleCount)
    {group : RayWorkerGroup} (numbered : Numbered group.workers) :
    ∃ group', entries.foldlM
      (createWorkersOn namePrefix ciaName (some info) worldSize localWorldSize) group = .ok group' ∧
      Numbered group'.workers ∧ group'.workers.map Worker.place =
        group.workers.map Worker.place ++
          (entries.map Prod.fst).flatMap (placesOn localWorldSize) := by
  induction entries generalizing group with
  | nil => exact ⟨group, rfl, numbered, by simp⟩
  | cons entry entries ih =>
    obtain ⟨middle, created, inOrder, here⟩ :=
      createWorkers_ok namePrefix ciaName info worldSize localWorldSize entry.2 entry.1 numbered
        localWorldSize
    obtain ⟨last, runs, numbered', rest⟩ :=
      ih (fun e member => fits e (List.mem_cons_of_mem _ member)) inOrder
    refine ⟨last, ?_, numbered', ?_⟩
    · have room : decide (localWorldSize ≤ entry.1.bundleCount) = true :=
        decide_eq_true (fits entry List.mem_cons_self)
      rw [List.foldlM_cons, createWorkersOn, room, pyAssert_true, ok_bind, created, ok_bind, runs]
    · rw [rest, here, List.append_assoc]
      rfl

theorem createAll_fits {entries : List (PlacementGroup × Nat)} {group group' : RayWorkerGroup}
    (returned : entries.foldlM
      (createWorkersOn namePrefix ciaName (some info) worldSize localWorldSize) group =
      .ok group') :
    ∀ entry ∈ entries, localWorldSize ≤ entry.1.bundleCount := by
  induction entries generalizing group with
  | nil => simp
  | cons entry entries ih =>
    rw [List.foldlM_cons] at returned
    obtain ⟨middle, created, rest⟩ := bind_ok_iff.mp returned
    obtain ⟨_, fits, -⟩ := bind_ok_iff.mp created
    intro e member
    rcases List.mem_cons.mp member with rfl | later
    · exact of_decide_eq_true (pyAssert_ok_iff.mp fits)
    · exact ih rest e later

end Loops

section Places

theorem filter_placesOn {pgs : List PlacementGroup} (distinct : pgs.Nodup) (localWorldSize : Nat)
    {pg : PlacementGroup} (member : pg ∈ pgs) :
    (pgs.flatMap (placesOn localWorldSize)).filter (fun place => place.1 = pg) =
      placesOn localWorldSize pg := by
  have own : ∀ other, (placesOn localWorldSize other).filter (fun place => place.1 = pg) =
      if other = pg then placesOn localWorldSize other else [] := by
    intro other
    by_cases same : other = pg
    · simp [placesOn, List.filter_map, same, Function.comp_def]
    · simp [placesOn, List.filter_map, same, Function.comp_def]
  have outside : ∀ others : List PlacementGroup, pg ∉ others →
      (others.flatMap (placesOn localWorldSize)).filter (fun place => place.1 = pg) = [] := by
    intro others absent
    rw [List.filter_eq_nil_iff]
    intro place inside
    obtain ⟨other, there, here⟩ := List.mem_flatMap.mp inside
    obtain ⟨_, -, rfl⟩ := List.mem_map.mp here
    simp only [decide_eq_true_eq]
    rintro rfl
    exact absent there
  induction pgs with
  | nil => cases member
  | cons first pgs ih =>
    obtain ⟨absent, rest⟩ := List.nodup_cons.mp distinct
    rw [List.flatMap_cons, List.filter_append, own]
    by_cases same : first = pg
    · subst same
      rw [if_pos rfl, outside pgs absent, List.append_nil]
    · rw [if_neg same, List.nil_append]
      exact ih rest ((List.mem_cons.mp member).resolve_left (Ne.symm same))

theorem onNode_places (workers : List Worker) (pg : PlacementGroup) :
    (onNode workers pg).map Worker.place =
      (workers.map Worker.place).filter (fun place => place.1 = pg) := by
  rw [List.filter_map]
  rfl

end Places

variable (namePrefix ciaName : Text) (info : Text × Text) (pool : RayResourcePool)

theorem sort_perm (pgs : List PlacementGroup) : (sortPlacementGroupByNodeIp pgs).Perm pgs :=
  List.perm_insertionSort _ _

theorem init_spec {first : Nat} (head : pool.processOnNodes[0]? = some first) :
    (∀ workers, initWithResourcePool namePrefix ciaName (some info) pool = .ok workers →
        ∀ pg ∈ pool.pgs, first ≤ pg.bundleCount) ∧
      ((∀ pg ∈ pool.pgs, first ≤ pg.bundleCount) →
        ∃ workers, initWithResourcePool namePrefix ciaName (some info) pool = .ok workers ∧
          Numbered workers ∧
          workers.map Worker.place =
            (sortPlacementGroupByNodeIp pool.pgs).flatMap (placesOn first)) := by
  have start : pyGet pool.processOnNodes 0 = .ok first := pyGet_ok_iff.mpr head
  have entries : (sortPlacementGroupByNodeIp pool.pgs).zipIdx.map Prod.fst =
      sortPlacementGroupByNodeIp pool.pgs := by
    simp
  unfold initWithResourcePool
  rw [start, ok_bind]
  constructor
  · intro workers returned pg member
    obtain ⟨group, runs, -⟩ := bind_ok_iff.mp returned
    have inside : pg ∈ (sortPlacementGroupByNodeIp pool.pgs).zipIdx.map Prod.fst := by
      rw [entries]
      exact (sort_perm pool.pgs).mem_iff.mpr member
    obtain ⟨entry, there, rfl⟩ := List.mem_map.mp inside
    exact createAll_fits namePrefix ciaName info pool.worldSize first runs entry there
  · intro fits
    have room : ∀ entry ∈ (sortPlacementGroupByNodeIp pool.pgs).zipIdx,
        first ≤ entry.1.bundleCount := by
      intro entry member
      have inside : entry.1 ∈ sortPlacementGroupByNodeIp pool.pgs := by
        rw [← entries]
        exact List.mem_map_of_mem member
      exact fits entry.1 ((sort_perm pool.pgs).mem_iff.mp inside)
    have none : Numbered (RayWorkerGroup.mk none []).workers := rfl
    obtain ⟨group, runs, numbered, places⟩ :=
      createAll_ok namePrefix ciaName info pool.worldSize first room none
    refine ⟨group.workers, by rw [runs]; rfl, numbered, ?_⟩
    rw [places, entries]
    rfl

theorem onNode_spec {first : Nat} {workers : List Worker}
    (places : workers.map Worker.place =
      (sortPlacementGroupByNodeIp pool.pgs).flatMap (placesOn first))
    {pg : PlacementGroup} (member : pg ∈ pool.pgs) :
    (onNode workers pg).map Worker.place = placesOn first pg := by
  have distinct : (sortPlacementGroupByNodeIp pool.pgs).Nodup :=
    (sort_perm pool.pgs).nodup_iff.mpr (List.Nodup.of_map _ pool.distinct)
  rw [onNode_places, places,
    filter_placesOn distinct first ((sort_perm pool.pgs).mem_iff.mpr member)]

theorem localRanks_of_places {first : Nat} {workers : List Worker} {pg : PlacementGroup}
    (places : workers.map Worker.place = placesOn first pg) :
    workers.map Worker.localRank = List.range first := by
  have ranks := congrArg (List.map (fun place : PlacementGroup × Nat × Nat => place.2.1)) places
  rw [placesOn, List.map_map, List.map_map] at ranks
  exact ranks.trans (List.map_id _)

theorem mem_processOnNodes {count : Nat} :
    count ∈ pool.processOnNodes ↔ ∃ pg ∈ pool.pgs, pg.bundleCount = count := by
  rw [← pool.bundles]
  exact List.mem_map

theorem equal_of_covers {workers : List Worker}
    (returned : initWithResourcePool namePrefix ciaName (some info) pool = .ok workers)
    (covers : Covers pool workers) :
    pool.processOnNodes ≠ [] ∧ ∀ a ∈ pool.processOnNodes, ∀ b ∈ pool.processOnNodes, a = b := by
  cases head : pool.processOnNodes[0]? with
  | none =>
    have fails : pyGet pool.processOnNodes 0 = .error .index := by
      unfold pyGet
      rw [head]
    rw [initWithResourcePool, fails] at returned
    cases returned
  | some first =>
    obtain ⟨fits, creates⟩ := init_spec namePrefix ciaName info pool head
    obtain ⟨workers', same, -, places⟩ := creates (fits workers returned)
    obtain rfl : workers' = workers := Except.ok.inj (same.symm.trans returned)
    have all : ∀ count ∈ pool.processOnNodes, count = first := by
      intro count member
      obtain ⟨pg, inside, rfl⟩ := (mem_processOnNodes pool).mp member
      have lists := (localRanks_of_places (onNode_spec pool places inside)).symm.trans
        (covers.localRanks pg inside)
      simpa using (congrArg List.length lists).symm
    refine ⟨?_, fun a ha b hb => (all a ha).trans (all b hb).symm⟩
    intro empty
    simp [empty] at head

theorem covers_of_equal (some : pool.processOnNodes ≠ [])
    (equal : ∀ a ∈ pool.processOnNodes, ∀ b ∈ pool.processOnNodes, a = b) :
    ∃ workers, initWithResourcePool namePrefix ciaName (Option.some info) pool = .ok workers ∧
      Covers pool workers := by
  obtain ⟨first, rest, list⟩ := List.exists_cons_of_ne_nil some
  have head : pool.processOnNodes[0]? = Option.some first := by rw [list]; rfl
  have all : ∀ pg ∈ pool.pgs, pg.bundleCount = first := fun pg member =>
    equal _ ((mem_processOnNodes pool).mpr ⟨pg, member, rfl⟩)
      _ (by rw [list]; exact List.mem_cons_self)
  obtain ⟨workers, returned, numbered, places⟩ :=
    (init_spec namePrefix ciaName info pool head).2 (fun pg member =>
      Nat.le_of_eq (all pg member).symm)
  have count : workers.length = pool.worldSize := by
    have length := congrArg List.length places
    have each : ∀ pg ∈ sortPlacementGroupByNodeIp pool.pgs,
        (placesOn first pg).length = pg.bundleCount := by
      intro pg member
      rw [placesOn, List.length_map, List.length_range,
        all pg ((sort_perm pool.pgs).mem_iff.mp member)]
    rw [List.length_map, List.length_flatMap, List.map_congr_left each] at length
    rw [length, RayResourcePool.worldSize, ← pool.bundles]
    exact ((sort_perm pool.pgs).map _).sum_eq
  refine ⟨workers, returned, count, ?_, ?_, ?_⟩
  · rw [numbered, count]
  · intro pg member
    rw [localRanks_of_places (onNode_spec pool places member), all pg member]
  · intro pg member worker inside
    have place : worker.place ∈ placesOn first pg :=
      onNode_spec pool places member ▸ List.mem_map_of_mem inside
    obtain ⟨localRank, -, same⟩ := List.mem_map.mp place
    rw [all pg member]
    exact (congrArg (fun place : PlacementGroup × Nat × Nat => place.2.2) same).symm

/-- The workers cover the pool exactly if every node has the count of the first entry. -/
theorem init_covers_iff :
    (∃ workers, initWithResourcePool namePrefix ciaName (some info) pool = .ok workers ∧
      Covers pool workers) ↔
      pool.processOnNodes ≠ [] ∧ ∀ a ∈ pool.processOnNodes, ∀ b ∈ pool.processOnNodes, a = b := by
  constructor
  · rintro ⟨workers, returned, covers⟩
    exact equal_of_covers namePrefix ciaName info pool returned covers
  · rintro ⟨nonempty, equal⟩
    exact covers_of_equal namePrefix ciaName info pool nonempty equal

def unevenPool : RayResourcePool where
  processOnNodes := [1, 2]
  pgs := [⟨0, 1, "10.0.0.2".toList⟩, ⟨1, 2, "10.0.0.1".toList⟩]
  bundles := rfl
  distinct := List.nodup_range (n := 2)

/-- Two workers for three processes, and the second node starts one of its two. -/
theorem uneven_not_covered :
    ¬∃ workers, initWithResourcePool [] [] (some ([], [])) unevenPool = .ok workers ∧
    Covers unevenPool workers := by
  have runs : (initWithResourcePool [] [] (some ([], [])) unevenPool).map
    (List.map (fun w => (w.rank, w.place))) =
      .ok [(0, ⟨1, 2, "10.0.0.1".toList⟩, 0, 1), (1, ⟨0, 1, "10.0.0.2".toList⟩, 0, 1)] := by
    decide +kernel
  rintro ⟨workers, returned, covers⟩
  rw [returned] at runs
  have two := congrArg List.length (Except.ok.inj runs)
  have three := covers.count
  simp only [List.length_map, List.length_cons, List.length_nil] at two
  rw [two] at three
  exact absurd three (by decide)

end Verl.SingleController
