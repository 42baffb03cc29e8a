import Mathlib.Data.List.Nodup
import Mathlib.Data.List.Perm.Subperm
import Mathlib.Data.List.Range
import Mathlib.Data.List.Sort

/-! Requests and candidates with a capacity. When both are sorted by size, serving the requests in
this order with the candidates in this order succeeds if any assignment of distinct candidates
does. -/
namespace Verl.Matching

variable {α C : Type}

section Places

def At (candidates : List C) (places : List Nat) (chosen : List C) : Prop :=
  List.Forall₂ (fun place c => candidates[place]? = some c) places chosen

theorem map_some_eq (candidates : List C) :
    candidates.map some = (List.range candidates.length).map (fun n => candidates[n]?) := by
  apply List.ext_getElem
  · simp
  · intro n _ _
    simp

theorem At.map_some {candidates chosen : List C} {places : List Nat}
    (stands : At candidates places chosen) :
    chosen.map some = places.map (fun n => candidates[n]?) := by
  induction stands with
  | nil => rfl
  | cons here _ ih => rw [List.map_cons, List.map_cons, here, ih]

theorem At.of_map_some {candidates chosen : List C} {places : List Nat}
    (same : chosen.map some = places.map (fun n => candidates[n]?)) :
    At candidates places chosen := by
  induction places generalizing chosen with
  | nil =>
    obtain rfl := List.map_eq_nil_iff.mp same
    exact .nil
  | cons place places ih =>
    cases chosen with
    | nil => cases same
    | cons c chosen =>
      obtain ⟨here, rest⟩ := List.cons.inj same
      exact .cons here.symm (ih rest)

theorem subperm_iff_places {candidates chosen : List C} :
    chosen.Subperm candidates ↔ ∃ places : List Nat,
      places.Nodup ∧ At candidates places chosen := by
  constructor
  · intro sub
    obtain ⟨middle, perm, sublist⟩ := sub.map (fun _ _ same => Option.some.inj same)
    rw [map_some_eq] at sublist
    obtain ⟨places, inside, rfl⟩ := List.sublist_map_iff.mp sublist
    have same : List.Forall₂ (fun a n => a = candidates[n]?)
        (places.map (fun n => candidates[n]?)) places := by
      rw [List.forall₂_map_left_iff]
      exact List.forall₂_same.mpr (fun _ _ => rfl)
    obtain ⟨places', stands, moved⟩ := List.perm_comp_forall₂ perm.symm same
    have distinct : places.Nodup := List.nodup_range.sublist inside
    refine ⟨places', moved.nodup_iff.mpr distinct, At.of_map_some ?_⟩
    rw [← List.forall₂_eq_eq_eq, List.forall₂_map_right_iff]
    exact stands
  · rintro ⟨places, distinct, stands⟩
    have inside : places ⊆ List.range candidates.length := by
      intro place member
      obtain ⟨n, here, rfl⟩ := List.mem_iff_getElem.mp member
      have there := List.Forall₂.get stands here (stands.length_eq ▸ here)
      exact List.mem_range.mpr (List.getElem?_eq_some_iff.mp there).1
    obtain ⟨middle, perm, sublist⟩ := distinct.subperm inside
    have sub : (places.map (fun n => candidates[n]?)).Subperm
      ((List.range candidates.length).map (fun n => candidates[n]?)) :=
      ⟨middle.map _, perm.map _, sublist.map _⟩
    rw [← map_some_eq, ← stands.map_some] at sub
    exact (List.map_subperm_map_iff (fun _ _ same => Option.some.inj same)).mp sub

end Places

section Sorted

variable [LinearOrder α] {cap : C → α} {requests : List α} {candidates chosen : List C}

/-- Whoever serves sorted requests from sorted candidates can as well take the first candidates, in
their order. -/
theorem forall₂_take_of_sorted (descending : requests.Pairwise (fun a b => b ≤ a))
    (sorted : candidates.Pairwise (fun a b => cap b ≤ cap a)) (sub : chosen.Subperm candidates)
    (serves : List.Forall₂ (fun request c => request ≤ cap c) requests chosen) :
    List.Forall₂ (fun request c => request ≤ cap c) requests (candidates.take requests.length) := by
  have enough : requests.length ≤ candidates.length := serves.length_eq ▸ sub.length_le
  rw [List.forall₂_iff_get]
  refine ⟨by simp [enough], ?_⟩
  intro k inside inside'
  rw [List.get_eq_getElem, List.get_eq_getElem, List.getElem_take]
  by_contra small
  -- the chosen of the requests up to `k` are at least as large as request `k`, but only the first
  -- `k` candidates are
  have many : k + 1 ≤ chosen.countP (fun c => decide (requests[k] ≤ cap c)) := by
    have here : k < chosen.length := serves.length_eq ▸ inside
    have all : (chosen.take (k + 1)).countP (fun c => decide (requests[k] ≤ cap c)) =
        (chosen.take (k + 1)).length := by
      rw [List.countP_eq_length]
      intro c member
      obtain ⟨i, below, rfl⟩ := List.mem_iff_getElem.mp member
      rw [List.length_take] at below
      have earlier : requests[k] ≤ requests[i] := by
        rcases Nat.lt_or_ge i k with less | more
        · exact List.pairwise_iff_getElem.mp descending i k _ inside less
        · obtain rfl : i = k := by omega
          exact le_refl _
      have served := List.Forall₂.get serves (show i < requests.length by omega)
        (show i < chosen.length by omega)
      rw [List.getElem_take]
      exact decide_eq_true (le_trans earlier served)
    have taken : (chosen.take (k + 1)).countP (fun c => decide (requests[k] ≤ cap c)) ≤
        chosen.countP (fun c => decide (requests[k] ≤ cap c)) :=
          (List.take_sublist (k + 1) chosen).countP_le
    rw [all, List.length_take] at taken
    omega
  have few : candidates.countP (fun c => decide (requests[k] ≤ cap c)) ≤ k := by
    have none : (candidates.drop k).countP (fun c => decide (requests[k] ≤ cap c)) = 0 := by
      rw [List.countP_eq_zero]
      intro c member large
      obtain ⟨i, below, rfl⟩ := List.mem_iff_getElem.mp member
      rw [List.length_drop] at below
      rw [List.getElem_drop, decide_eq_true_eq] at large
      apply small
      rcases Nat.eq_zero_or_pos i with rfl | later
      · simpa using large
      · exact le_trans large
          (List.pairwise_iff_getElem.mp sorted k (k + i) (by omega) (by omega) (by omega))
    rw [← List.take_append_drop k candidates, List.countP_append, none, Nat.add_zero]
    exact le_trans List.countP_le_length (List.length_take_le k candidates)
  have both := sub.countP_le (fun c => decide (requests[k] ≤ cap c))
  omega

end Sorted

end Verl.Matching
