import Mathlib.Algebra.GroupWithZero.Nat
import Mathlib.Data.List.Sort
import Verl.Base.Python
import Verl.Base.Heapq
import Verl.Base.Blocks

/-! `karmarkar_karp` of `verl/utils/seqlen_balancing.py`: the largest differencing
method on k-tuples of sets, driven by a heap. The two facts the source states in
comments or leaves to `__init__` are fields here: a set's sum is the sum of its
items, and the sets of a state are in decreasing order. -/
namespace Verl.SeqlenBalancing

/-- Items are `(idx, val)` pairs, compared as Python compares tuples. -/
abbrev Item := Nat × Nat

def itemCmp : Item → Item → Ordering :=
  compareLex (compareOn Prod.fst) (compareOn Prod.snd)

instance : Std.TransCmp itemCmp :=
  inferInstanceAs (Std.TransCmp (compareLex _ _))

structure LenSet where
  sum : Nat
  items : List Item
  sum_eq : sum = (items.map Prod.snd).sum

namespace LenSet

def empty : LenSet := ⟨0, [], rfl⟩

def add (s : LenSet) (idx val : Nat) : LenSet :=
  ⟨s.sum + val, s.items ++ [(idx, val)], by simp [s.sum_eq]⟩

def merge (s other : LenSet) : LenSet :=
  ⟨s.sum + other.sum, s.items ++ other.items, by simp [s.sum_eq, other.sum_eq]⟩

@[simp] theorem empty_items : empty.items = [] := rfl

@[simp] theorem add_items (s : LenSet) (idx val : Nat) :
    (s.add idx val).items = s.items ++ [(idx, val)] := rfl

@[simp] theorem merge_items (s other : LenSet) :
    (s.merge other).items = s.items ++ other.items := rfl

def cmp : LenSet → LenSet → Ordering :=
  compareLex (compareOn sum) (compareLex (compareOn (fun s => s.items.length))
    (fun a b => List.compareLex itemCmp a.items b.items))

def lt (a b : LenSet) : Bool := (cmp a b).isLT

instance : Std.TransCmp (fun a b : LenSet => List.compareLex itemCmp a.items b.items) :=
  have h : Std.TransCmp (List.compareLex itemCmp) := inferInstance
  { eq_swap := h.toOrientedCmp.eq_swap, isLE_trans := h.isLE_trans }

instance : Std.TransCmp cmp :=
  inferInstanceAs (Std.TransCmp (compareLex _ _))

/-- The order in which `sorted(reverse=True)` leaves two sets. -/
def NotBefore (a b : LenSet) : Prop := a.lt b = false

instance : DecidableRel NotBefore := fun a b => inferInstanceAs (Decidable (a.lt b = false))

theorem notBefore_iff {a b : LenSet} : NotBefore a b ↔ (cmp a b).isGE := by
  unfold NotBefore lt
  cases cmp a b <;> decide

instance : Std.Total NotBefore where
  total a b := by
    have swap : cmp a b = (cmp b a).swap := Std.OrientedCmp.eq_swap
    rw [notBefore_iff, notBefore_iff, swap]
    cases cmp b a <;> decide

instance : IsTrans LenSet NotBefore where
  trans a b c hab hbc := by
    rw [notBefore_iff] at hab hbc ⊢
    exact Std.TransCmp.isGE_trans hab hbc

end LenSet

/-- The class `State`. "sets should always be decreasing order". -/
structure State (k : Nat) where
  sets : List LenSet
  size : sets.length = k
  descending : sets.Pairwise LenSet.NotBefore

namespace State

/-- `self.sets = sorted(self.sets, reverse=True)`, a stable sort. -/
def ofSets {k : Nat} (sets : List LenSet) (size : sets.length = k) : State k where
  sets := sets.insertionSort LenSet.NotBefore
  size := by rw [List.length_insertionSort, size]
  descending := List.pairwise_insertionSort _ sets

/-- The sets of `State.__init__` before they are sorted: one item each, then empty ones. -/
def initSets (items : List Item) (k : Nat) : List LenSet :=
  items.map (fun item => LenSet.empty.add item.1 item.2) ++
    List.replicate (k - items.length) LenSet.empty

/-- `State.__init__`. Writing to `self.sets[i]` past the k sets is an `IndexError`. -/
def init (items : List Item) (k : Nat) : Py (State k) := do
  let n := items.length
  pyAssert (n == 1 || n == k) s!"{n} not in [1, {k}]"
  if fits : items.length ≤ k then
    .ok (ofSets (initSets items k) (by simp [initSets]; omega))
  else .error .index

/-- The sets are in decreasing order, so the subtraction does not truncate. -/
def spread {k : Nat} (s : State k) : Nat :=
  (s.sets.headD LenSet.empty).sum - (s.sets.getLastD LenSet.empty).sum

def getPartitions {k : Nat} (s : State k) : List (List Nat) :=
  s.sets.map (fun set => set.items.map Prod.fst)

/-- `merge`: set `i` takes the items of the other state's set `k - 1 - i`. -/
def merge {k : Nat} (s other : State k) : State k :=
  ofSets (List.zipWith LenSet.merge s.sets other.sets.reverse) (by simp [s.size, other.size])

def lt {k : Nat} (s other : State k) : Bool :=
  if s.spread ≠ other.spread then other.spread < s.spread
  else (other.sets.headD LenSet.empty).lt (s.sets.headD LenSet.empty)

end State

def sortedSeqlenList (seqlenList : List Nat) : List (Nat × Nat) :=
  seqlenList.zipIdx.insertionSort (fun a b => a.1 < b.1 ∨ (a.1 = b.1 ∧ a.2 ≤ b.2))

def initialItems (seqlenList : List Nat) (k : Nat) (equalSize : Bool) : List (List Item) :=
  let items := (sortedSeqlenList seqlenList).map Prod.swap
  if equalSize then blocks k (items.length / k) items
  else items.map (fun item => [item])

def pushAll {k : Nat} (states : List (State k)) : List (State k) :=
  states.foldl (Heapq.heappush State.lt) []

/-- The `while len(states_pq) > 1` loop. Every turn leaves one state fewer. -/
def mergeLoop {k : Nat} : Nat → List (State k) → List (State k)
  | 0, pq => pq
  | fuel + 1, pq =>
    if 1 < pq.length then
      match Heapq.heappop State.lt pq with
      | none => pq
      | some (state0, pq0) =>
        match Heapq.heappop State.lt pq0 with
        | none => pq
        | some (state1, pq1) => mergeLoop fuel (Heapq.heappush State.lt pq1 (state0.merge state1))
    else pq

def checkEqualSize (n k : Nat) (partition : List Nat) : Py Unit :=
  let m := partition.length
  pyAssert (m * k == n) s!"{m} * {k} != {n}"

def karmarkarKarp (seqlenList : List Nat) (k : Nat) (equalSize : Bool) : Py (List (List Nat)) := do
  let n := seqlenList.length
  if equalSize then
    let remainder ← pyMod n k
    pyAssert (remainder == 0) s!"{n} % {k} != 0"
  let states ← (initialItems seqlenList k equalSize).mapM (fun items => State.init items k)
  let finalState ← pyGet (mergeLoop states.length (pushAll states)) 0
  let partitions := finalState.getPartitions
  if equalSize then
    partitions.forM (checkEqualSize n k)
  return partitions

def checkAndSort (entry : List Nat × Nat) : Py (List Nat) := do
  let (partition, i) := entry
  pyAssert (!partition.isEmpty) s!"the {i}-th partition is empty"
  return partition.insertionSort (· ≤ ·)

def checkAndSortPartitions (n k : Nat) (partitions : List (List Nat)) : Py (List (List Nat)) := do
  let found := partitions.length
  pyAssert (found == k) s!"{found} != {k}"
  let sortedPartitions ← partitions.zipIdx.mapM checkAndSort
  let seen := partitions.flatten
  pyAssert (seen.all (· < n) && (List.range n).all (seen.contains ·)) ""
  return sortedPartitions

def getSeqlenBalancedPartitions (seqlenList : List Nat) (k : Nat) (equalSize : Bool) :
    Py (List (List Nat)) := do
  let n := seqlenList.length
  pyAssert (k ≤ n) s!"number of items:[{n}] < k_partitions:[{k}]"
  let partitions ← karmarkarKarp seqlenList k equalSize
  checkAndSortPartitions n k partitions

example : getSeqlenBalancedPartitions [1, 2] 2 false = .ok [[1], [0]] := by decide

end Verl.SeqlenBalancing
