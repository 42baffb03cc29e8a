import Mathlib.Data.Prod.Lex
import Verl.Base.Dict
import Verl.Base.Matching
import Verl.SingleController.ResourcePool

/-! `extract_pg_from_exist`: existing placement groups for the process counts of a new resource
pool. -/
namespace Verl.SingleController
open Matching

section Model

/-- The placement groups of the named roles; `resource_pools` gives the placement groups of each
role. -/
def srcPgs (resourcePools : Dict (List PlacementGroup)) (srcRoleNames : List String) :
    List PlacementGroup :=
  resourcePools.entries.flatMap (fun (roleName, pgs) => if roleName ∈ srcRoleNames then pgs else [])

/-- `sorted(src_pgs, key=lambda pg: pg.bundle_count, reverse=True)`; equal ones keep their order. -/
def sortedSrcPgs (pgs : List PlacementGroup) : List PlacementGroup :=
  pgs.insertionSort (fun a b => b.bundleCount ≤ a.bundleCount)

def sortedProcessOnNodes (store : List Nat) : List (Nat × Nat) :=
  store.zipIdx.insertionSort (fun a b => toLex b ≤ toLex a)

structure Extraction where
  unsortedPgs : List (Nat × PlacementGroup)
  searchingIdx : Nat

def serveRequest (pgs : List PlacementGroup) (s : Extraction) (request : Nat × Nat) :
    Py Extraction := do
  let searchingIdx := s.searchingIdx
  let requestProcess := request.1
  pyAssert (searchingIdx < pgs.length)
    s!"no enough nodes for request: searching {searchingIdx} th node"
  let pg ← pyGet pgs searchingIdx
  pyAssert (requestProcess ≤ pg.bundleCount)
    s!"requesting {requestProcess} processes, bundle count cannot satisfy"
  return ⟨s.unsortedPgs ++ [(request.2, pg)], searchingIdx + 1⟩

def extractPgFromExist (resourcePools : Dict (List PlacementGroup)) (srcRoleNames : List String)
    (store : List Nat) :
    Py (List PlacementGroup) := do
  let s ← (sortedProcessOnNodes store).foldlM
    (serveRequest (sortedSrcPgs (srcPgs resourcePools srcRoleNames))) ⟨[], 0⟩
  return (s.unsortedPgs.insertionSort (fun a b => a.1 ≤ b.1)).map Prod.snd

end Model

/-- Distinct placement groups, by their places in the list, that are large enough for the
requests. -/
def Assignment (pgs : List PlacementGroup) (store places : List Nat) : Prop :=
  places.Nodup ∧ List.Forall₂ (fun request place => ∃ pg, pgs[place]? = some pg ∧
    request ≤ pg.bundleCount) store places

section Sorting

instance total_bundleCount :
    Std.Total (fun a b : PlacementGroup => b.bundleCount ≤ a.bundleCount) :=
  ⟨fun a b => Nat.le_total b.bundleCount a.bundleCount⟩

instance trans_bundleCount : IsTrans PlacementGroup (fun a b => b.bundleCount ≤ a.bundleCount) :=
  ⟨fun _ _ _ first second => Nat.le_trans second first⟩

instance total_toLex : Std.Total (fun a b : Nat × Nat => toLex b ≤ toLex a) :=
  ⟨fun a b => le_total (toLex b) (toLex a)⟩

instance trans_toLex : IsTrans (Nat × Nat) (fun a b => toLex b ≤ toLex a) :=
  ⟨fun _ _ _ first second => le_trans second first⟩

theorem descending_requests (store : List Nat) :
    ((sortedProcessOnNodes store).map Prod.fst).Pairwise (fun a b => b ≤ a) := by
  rw [List.pairwise_map]
  apply (List.pairwise_insertionSort (fun a b : Nat × Nat => toLex b ≤ toLex a) store.zipIdx).imp
  intro a b smaller
  exact Prod.Lex.monotone_fst _ _ smaller

theorem descending_pgs (pgs : List PlacementGroup) :
    (sortedSrcPgs pgs).Pairwise (fun a b => b.bundleCount ≤ a.bundleCount) :=
  List.pairwise_insertionSort _ pgs

end Sorting

section Loop

variable {pgs : List PlacementGroup} {requests : List (Nat × Nat)} {s s' : Extraction}

theorem serveRequest_ok_iff {request : Nat × Nat} : serveRequest pgs s request = .ok s' ↔
    ∃ pg, pgs[s.searchingIdx]? = some pg ∧ request.1 ≤ pg.bundleCount ∧
      s' = ⟨s.unsortedPgs ++ [(request.2, pg)], s.searchingIdx + 1⟩ := by
  simp only [serveRequest, bind_ok_iff, pyAssert_ok_iff, pyGet_ok_iff, decide_eq_true_eq,
    pure_eq_ok, Except.ok.injEq]
  constructor
  · rintro ⟨_, -, pg, here, _, large, rfl⟩
    exact ⟨pg, here, large, rfl⟩
  · rintro ⟨pg, here, large, rfl⟩
    exact ⟨(), (List.getElem?_eq_some_iff.mp here).1, pg, here, (), large, rfl⟩

theorem serveRequests_ok_iff : requests.foldlM (serveRequest pgs) s = .ok s' ↔
    List.Forall₂ (fun request pg => request.1 ≤ pg.bundleCount) requests
      ((pgs.drop s.searchingIdx).take requests.length) ∧
      s' = ⟨s.unsortedPgs ++ (requests.zip ((pgs.drop s.searchingIdx).take requests.length)).map
        (fun e => (e.1.2, e.2)), s.searchingIdx + requests.length⟩ := by
  induction requests generalizing s with
  | nil => simp [eq_comm]
  | cons request requests ih =>
    rw [List.foldlM_cons, bind_ok_iff]
    simp only [serveRequest_ok_iff, ih]
    cases here : pgs[s.searchingIdx]? with
    | none =>
      have past : pgs.drop s.searchingIdx = [] :=
        List.drop_eq_nil_of_le (List.getElem?_eq_none_iff.mp here)
      simp [past]
    | some pg =>
      obtain ⟨inside, rfl⟩ := List.getElem?_eq_some_iff.mp here
      rw [List.drop_eq_getElem_cons inside, List.length_cons, List.take_succ_cons,
        List.forall₂_cons, List.zip_cons_cons, List.map_cons]
      constructor
      · rintro ⟨next, ⟨pg, same, large, rfl⟩, others, rfl⟩
        cases same
        refine ⟨⟨large, others⟩, ?_⟩
        simp only [List.append_assoc, List.singleton_append, Nat.add_assoc, Nat.add_comm 1]
      · rintro ⟨⟨large, others⟩, rfl⟩
        refine ⟨_, ⟨_, rfl, large, rfl⟩, others, ?_⟩
        simp only [List.append_assoc, List.singleton_append, Nat.add_assoc, Nat.add_comm 1]

end Loop

section Restored

variable {store : List Nat} {pgs : List PlacementGroup}

theorem perm_requests (store : List Nat) :
    ((sortedProcessOnNodes store).map Prod.fst).Perm store := by
  have perm := (List.perm_insertionSort (fun a b : Nat × Nat => toLex b ≤ toLex a) store.zipIdx).map
    Prod.fst
  rwa [List.zipIdx_map_fst] at perm

theorem perm_sortedSrcPgs (pgs : List PlacementGroup) : (sortedSrcPgs pgs).Perm pgs :=
  List.perm_insertionSort _ pgs

instance total_restored : Std.Total (fun a b : (Nat × Nat) × PlacementGroup => a.1.2 ≤ b.1.2) :=
  ⟨fun a b => Nat.le_total a.1.2 b.1.2⟩

instance trans_restored : IsTrans ((Nat × Nat) × PlacementGroup) (fun a b => a.1.2 ≤ b.1.2) :=
  ⟨fun _ _ _ first second => Nat.le_trans first second⟩

def restored (store : List Nat) (pgs : List PlacementGroup) : List ((Nat × Nat) × PlacementGroup) :=
  ((sortedProcessOnNodes store).zip
    ((sortedSrcPgs pgs).take (sortedProcessOnNodes store).length)).insertionSort (fun a b =>
    a.1.2 ≤ b.1.2)

theorem extract_ok_iff {resourcePools : Dict (List PlacementGroup)} {srcRoleNames : List String}
    {out : List PlacementGroup} :
    extractPgFromExist resourcePools srcRoleNames store = .ok out ↔
      List.Forall₂ (fun request pg => request.1 ≤ pg.bundleCount) (sortedProcessOnNodes store)
        ((sortedSrcPgs (srcPgs resourcePools srcRoleNames)).take
          (sortedProcessOnNodes store).length) ∧
      out = (restored store (srcPgs resourcePools srcRoleNames)).map Prod.snd := by
  have sorted : ∀ served : List ((Nat × Nat) × PlacementGroup),
    ((served.map (fun e => (e.1.2, e.2))).insertionSort
      (fun a b => a.1 ≤ b.1)).map Prod.snd =
        (served.insertionSort (fun a b => a.1.2 ≤ b.1.2)).map Prod.snd := by
    intro served
    rw [← List.map_insertionSort (fun a b : (Nat × Nat) × PlacementGroup => a.1.2 ≤ b.1.2)
      (fun a b => a.1 ≤ b.1)
      (fun e => (e.1.2, e.2)) served (fun _ _ _ _ => Iff.rfl), List.map_map]
    rfl
  simp only [extractPgFromExist, bind_ok_iff, serveRequests_ok_iff, List.drop_zero, List.nil_append,
    pure_eq_ok, Except.ok.injEq]
  constructor
  · rintro ⟨_, ⟨serves, rfl⟩, rfl⟩
    exact ⟨serves, sorted _⟩
  · rintro ⟨serves, rfl⟩
    exact ⟨_, ⟨serves, rfl⟩, sorted _⟩

variable (serves :
    List.Forall₂ (fun request pg => request.1 ≤ pg.bundleCount) (sortedProcessOnNodes store)
  ((sortedSrcPgs pgs).take (sortedProcessOnNodes store).length))
include serves

theorem map_fst_restored : (restored store pgs).map Prod.fst = store.zipIdx := by
  have perm : ((restored store pgs).map Prod.fst).Perm store.zipIdx := by
    have moved := (List.perm_insertionSort (fun a b : (Nat × Nat) × PlacementGroup => a.1.2 ≤ b.1.2)
      ((sortedProcessOnNodes store).zip
        ((sortedSrcPgs pgs).take (sortedProcessOnNodes store).length))).map Prod.fst
    rw [List.map_fst_zip serves.length_eq.le] at moved
    exact moved.trans (List.perm_insertionSort _ _)
  have ordered : ((restored store pgs).map Prod.fst).Pairwise (fun a b => a.2 ≤ b.2) := by
    rw [List.pairwise_map]
    exact List.pairwise_insertionSort (fun a b : (Nat × Nat) × PlacementGroup => a.1.2 ≤ b.1.2) _
  have indices : store.zipIdx.Pairwise (fun a b => a.2 ≤ b.2) := by
    have range : (store.zipIdx.map Prod.snd).Pairwise (fun a b => a ≤ b) := by
      rw [List.zipIdx_map_snd]
      exact List.pairwise_le_range'
    exact List.pairwise_map.mp range
  apply List.Perm.eq_of_pairwise _ ordered indices perm
  intro a b first second below above
  have here := List.mem_zipIdx_iff_getElem?.mp (perm.mem_iff.mp first)
  have there := List.mem_zipIdx_iff_getElem?.mp second
  have same : a.2 = b.2 := Nat.le_antisymm below above
  rw [same, there] at here
  exact Prod.ext (Option.some.inj here).symm same

theorem restored_serves :
    List.Forall₂ (fun request pg => request ≤ pg.bundleCount) store
    ((restored store pgs).map Prod.snd) := by
  have requests : (restored store pgs).map (fun e => e.1.1) = store := by
    have fsts := congrArg (List.map Prod.fst) (map_fst_restored serves)
    rw [List.map_map, List.zipIdx_map_fst] at fsts
    exact fsts
  conv => arg 2; rw [← requests]
  rw [List.forall₂_map_left_iff, List.forall₂_map_right_iff, List.forall₂_same]
  intro e member
  have inside := (List.mem_insertionSort _).mp member
  exact (List.forall₂_iff_zip.mp serves).2 inside

theorem restored_subperm : ((restored store pgs).map Prod.snd).Subperm pgs := by
  have moved := (List.perm_insertionSort (fun a b : (Nat × Nat) × PlacementGroup => a.1.2 ≤ b.1.2)
    ((sortedProcessOnNodes store).zip
      ((sortedSrcPgs pgs).take (sortedProcessOnNodes store).length))).map Prod.snd
  rw [List.map_snd_zip serves.length_eq.ge] at moved
  exact moved.subperm.trans ((List.take_sublist _ _).subperm.trans (perm_sortedSrcPgs pgs).subperm)

end Restored

theorem fits_iff {pgs : List PlacementGroup} {store places : List Nat} :
    List.Forall₂ (fun request place => ∃ pg, pgs[place]? = some pg ∧
      request ≤ pg.bundleCount) store places ↔
      ∃ chosen, List.Forall₂ (fun request pg => request ≤ pg.bundleCount) store chosen ∧
        At pgs places chosen := by
  constructor
  · intro fits
    induction fits with
    | nil => exact ⟨[], .nil, .nil⟩
    | cons here _ ih =>
      obtain ⟨pg, there, large⟩ := here
      obtain ⟨chosen, serves, stands⟩ := ih
      exact ⟨pg :: chosen, .cons large serves, .cons there stands⟩
  · rintro ⟨chosen, serves, stands⟩
    induction serves generalizing places with
    | nil =>
      cases stands
      exact .nil
    | cons large _ ih =>
      cases stands with
      | cons there stands => exact .cons ⟨_, there, large⟩ (ih stands)

theorem serves_of_assignment {pgs : List PlacementGroup} {store places : List Nat}
    (assigned : Assignment pgs store places) :
    List.Forall₂ (fun request pg => request.1 ≤ pg.bundleCount) (sortedProcessOnNodes store)
      ((sortedSrcPgs pgs).take (sortedProcessOnNodes store).length) := by
  obtain ⟨distinct, fits⟩ := assigned
  obtain ⟨chosen, serves, stands⟩ := fits_iff.mp fits
  have sub : chosen.Subperm (sortedSrcPgs pgs) :=
    (subperm_iff_places.mpr ⟨places, distinct, stands⟩).trans (perm_sortedSrcPgs pgs).symm.subperm
  obtain ⟨chosen', serves', moved⟩ := List.perm_comp_forall₂ (perm_requests store) serves
  have taken := forall₂_take_of_sorted (descending_requests store) (descending_pgs pgs)
    (moved.subperm.trans sub) serves'
  rw [List.length_map] at taken
  exact List.forall₂_map_left_iff.mp taken

/-- The placement groups are found exactly when there is an assignment, and come back in the order
of the requests. -/
theorem extractPgFromExist_spec (resourcePools : Dict (List PlacementGroup))
    (srcRoleNames : List String) (store : List Nat) :
    ((∃ pgs, extractPgFromExist resourcePools srcRoleNames store = .ok pgs) ↔
      ∃ places, Assignment (srcPgs resourcePools srcRoleNames) store places) ∧
    ∀ pgs, extractPgFromExist resourcePools srcRoleNames store = .ok pgs →
      List.Forall₂ (fun request pg => request ≤ pg.bundleCount) store pgs ∧
      (∃ places : List Nat, places.Nodup ∧ At (srcPgs resourcePools srcRoleNames) places pgs) ∧
      ((srcPgs resourcePools srcRoleNames).Nodup → pgs.Nodup) := by
  have result : ∀ pgs, extractPgFromExist resourcePools srcRoleNames store = .ok pgs →
      List.Forall₂ (fun request pg => request ≤ pg.bundleCount) store pgs ∧
        pgs.Subperm (srcPgs resourcePools srcRoleNames) := by
    intro pgs returned
    obtain ⟨serves, rfl⟩ := extract_ok_iff.mp returned
    exact ⟨restored_serves serves, restored_subperm serves⟩
  constructor
  · constructor
    · rintro ⟨pgs, returned⟩
      obtain ⟨large, sub⟩ := result pgs returned
      obtain ⟨places, distinct, stands⟩ := subperm_iff_places.mp sub
      exact ⟨places, distinct, fits_iff.mpr ⟨pgs, large, stands⟩⟩
    · rintro ⟨places, assigned⟩
      exact ⟨_, extract_ok_iff.mpr ⟨serves_of_assignment assigned, rfl⟩⟩
  · intro pgs returned
    obtain ⟨large, sub⟩ := result pgs returned
    refine ⟨large, subperm_iff_places.mp sub, fun distinct => ?_⟩
    obtain ⟨middle, perm, sublist⟩ := sub
    exact perm.nodup_iff.mp (distinct.sublist sublist)

end Verl.SingleController
