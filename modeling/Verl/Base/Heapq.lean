import Mathlib.Data.List.Perm.Basic

/-! The binary heap of Python's `heapq`, over any comparison.
A hole moves along the tree and the new item is written into it at the end, as
the library does. The comparison is not assumed to be an order: every fact here
is about which elements the heap holds, for any order in which they come out. -/
namespace Verl.Heapq

variable {α : Type u} (lt : α → α → Bool)

/-- `_siftdown` from 0. The position at least halves on each turn, so a fuel of
the heap's length is never used up. -/
def siftdown (newitem : α) : Nat → Nat → List α → List α
  | 0, pos, heap => heap.set pos newitem
  | fuel + 1, pos, heap =>
    if 0 < pos then
      match heap[(pos - 1) / 2]? with
      | some parent =>
        if lt newitem parent then siftdown newitem fuel ((pos - 1) / 2) (heap.set pos parent)
        else heap.set pos newitem
      | none => heap.set pos newitem
    else heap.set pos newitem

def smallerChild (heap : List α) (childpos : Nat) : Nat :=
  match heap[childpos]?, heap[childpos + 1]? with
  | some left, some right => if lt left right then childpos else childpos + 1
  | _, _ => childpos

def sink : Nat → Nat → List α → Nat × List α
  | 0, pos, heap => (pos, heap)
  | fuel + 1, pos, heap =>
    match heap[smallerChild lt heap (2 * pos + 1)]? with
    | some child => sink fuel (smallerChild lt heap (2 * pos + 1)) (heap.set pos child)
    | none => (pos, heap)

def heappush (heap : List α) (item : α) : List α :=
  siftdown lt item heap.length heap.length (heap ++ [item])

/-- `none` is the `IndexError` of an empty heap. -/
def heappop (heap : List α) : Option (α × List α) :=
  match heap.getLast? with
  | none => none
  | some lastelt =>
    match heap.dropLast with
    | [] => some (lastelt, [])
    | returnitem :: rest =>
      let sunk := sink lt heap.length 0 (lastelt :: rest)
      some (returnitem, siftdown lt lastelt heap.length sunk.1 sunk.2)

theorem move_hole {heap : List α} {i j : Nat} {newitem x : α} (hi : i < heap.length)
    (hne : j ≠ i) (hx : heap[j]? = some x) :
    ((heap.set i x).set j newitem).Perm (heap.set i newitem) := by
  obtain ⟨hj, hxj⟩ := List.getElem?_eq_some_iff.mp hx
  have hi' : i < (heap.set i newitem).length := by simpa using hi
  have hj' : j < (heap.set i newitem).length := by simpa using hj
  have h := List.set_set_perm hi' hj'
  simpa [List.set_set, List.getElem_set, hne.symm, hxj] using h

theorem siftdown_perm (newitem : α) (fuel pos : Nat) (heap : List α) (inside : pos < heap.length) :
    (siftdown lt newitem fuel pos heap).Perm (heap.set pos newitem) := by
  induction fuel generalizing pos heap with
  | zero => exact .refl _
  | succ fuel ih =>
    unfold siftdown
    split
    · split
      · rename_i hpos parent hp
        split
        · have hlt : (pos - 1) / 2 < heap.length := by omega
          exact (ih _ _ (by simpa using hlt)).trans (move_hole inside (by omega) hp)
        · exact .refl _
      · exact .refl _
    · exact .refl _

theorem le_smallerChild (heap : List α) (childpos : Nat) :
    childpos ≤ smallerChild lt heap childpos := by
  unfold smallerChild
  split
  · split <;> omega
  · exact Nat.le_refl _

theorem sink_perm (newitem : α) (fuel pos : Nat) (heap : List α) (inside : pos < heap.length) :
    (sink lt fuel pos heap).1 < (sink lt fuel pos heap).2.length ∧
    ((sink lt fuel pos heap).2.set (sink lt fuel pos heap).1 newitem).Perm
      (heap.set pos newitem) := by
  induction fuel generalizing pos heap with
  | zero => exact ⟨inside, .refl _⟩
  | succ fuel ih =>
    unfold sink
    split
    · rename_i child hc
      have hlt := (List.getElem?_eq_some_iff.mp hc).1
      have hle := le_smallerChild lt heap (2 * pos + 1)
      have step := ih (smallerChild lt heap (2 * pos + 1)) (heap.set pos child) (by simpa using hlt)
      exact ⟨step.1, step.2.trans (move_hole inside (by omega) hc)⟩
    · exact ⟨inside, .refl _⟩

theorem heappush_perm (heap : List α) (item : α) : (heappush lt heap item).Perm (item :: heap) := by
  have inside : heap.length < (heap ++ [item]).length := by simp
  have h := siftdown_perm lt item heap.length heap.length (heap ++ [item]) inside
  have same : (heap ++ [item]).set heap.length item = heap ++ [item] := by
    rw [List.set_append_right _ _ (Nat.le_refl _)]
    simp
  rw [same] at h
  exact h.trans (List.perm_append_comm)

theorem heappop_perm {heap : List α} {x : α} {rest : List α}
    (popped : heappop lt heap = some (x, rest)) : (x :: rest).Perm heap := by
  unfold heappop at popped
  split at popped
  · contradiction
  · rename_i lastelt hlast
    have parts : heap.dropLast ++ [lastelt] = heap :=
      List.dropLast_append_getLast? lastelt (by simp [hlast])
    split at popped
    · rename_i hd
      cases Option.some.inj popped
      rw [hd] at parts
      exact .of_eq parts
    · rename_i head tail hd
      cases Option.some.inj popped
      have sunk := sink_perm lt lastelt heap.length 0 (lastelt :: tail) (by simp)
      have filled := siftdown_perm lt lastelt heap.length _ _ sunk.1
      have swap : ([lastelt] ++ tail).Perm (tail ++ [lastelt]) := List.perm_append_comm
      rw [hd] at parts
      exact (((filled.trans sunk.2).trans swap).cons x).trans (.of_eq parts)

theorem heappop_isSome {heap : List α} (nonempty : heap ≠ []) : ∃ r, heappop lt heap = some r := by
  unfold heappop
  rw [List.getLast?_eq_some_getLast nonempty]
  dsimp only
  split
  · exact ⟨_, rfl⟩
  · exact ⟨_, rfl⟩

end Verl.Heapq
