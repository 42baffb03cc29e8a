import Mathlib.Data.List.Perm.Basic
import Mathlib.Data.List.Range
import Verl.Base.Python
import Verl.Base.Blocks

/-! Reading a list at a list of positions. `pick` is total (a position outside
the list contributes nothing); `takeRows` is the indexing of a tensor by an index
tensor, which raises there. The main fact is that the table filled by writing `i`
at position `p[i]` reads a permuted list back in its first order. -/
namespace Verl

variable {α : Type u} {β : Type v} {γ : Type w}

def pick (xs : List α) (idx : List Nat) : List α := idx.filterMap (fun i => xs[i]?)

def takeRows (xs : List α) (idx : List Nat) : Py (List α) :=
  if idx.all (· < xs.length) then .ok (pick xs idx) else .error .index

/-- `out = copy(idx)`, then `out[idx[i]] = i` for each `i` in order. -/
def scatter (idx : List Nat) : Py (List Nat) :=
  idx.zipIdx.foldlM (fun out (entry : Nat × Nat) => pySet out entry.1 entry.2) idx

@[simp] theorem pick_nil (xs : List α) : pick xs [] = [] := rfl

theorem pick_cons {xs : List α} {i : Nat} (hi : i < xs.length) (idx : List Nat) :
    pick xs (i :: idx) = xs[i] :: pick xs idx := by
  simp [pick, List.getElem?_eq_getElem hi]

theorem pick_append (xs : List α) (p q : List Nat) : pick xs (p ++ q) = pick xs p ++ pick xs q :=
  List.filterMap_append

theorem pick_map (f : α → β) (xs : List α) (idx : List Nat) :
    pick (xs.map f) idx = (pick xs idx).map f := by
  simp [pick, List.map_filterMap]

theorem mem_of_mem_pick {xs : List α} {idx : List Nat} {x : α} (member : x ∈ pick xs idx) :
    x ∈ xs := by
  obtain ⟨i, _, found⟩ := List.mem_filterMap.mp member
  exact List.mem_of_getElem? found

theorem length_pick {xs : List α} {idx : List Nat} (inside : ∀ i ∈ idx, i < xs.length) :
    (pick xs idx).length = idx.length := by
  induction idx with
  | nil => rfl
  | cons i idx ih =>
    rw [pick_cons (inside i (by simp))]
    simpa using ih (fun j hj => inside j (by simp [hj]))

theorem getElem?_pick {xs : List α} {idx : List Nat} (inside : ∀ i ∈ idx, i < xs.length) (j : Nat) :
    (pick xs idx)[j]? = idx[j]?.bind (fun i => xs[i]?) := by
  induction idx generalizing j with
  | nil => rfl
  | cons i idx ih =>
    rw [pick_cons (inside i (by simp))]
    cases j with
    | zero => simp [List.getElem?_eq_getElem (inside i (by simp))]
    | succ j => simpa using ih (fun j hj => inside j (by simp [hj])) j

theorem pick_pick {xs : List α} {p : List Nat} (inside : ∀ i ∈ p, i < xs.length) (q : List Nat) :
    pick (pick xs p) q = pick xs (pick p q) := by
  simp only [pick, List.filterMap_filterMap]
  congr 1
  funext j
  exact getElem?_pick inside j

theorem pick_range (xs : List α) : pick xs (List.range xs.length) = xs := by
  apply List.ext_getElem?
  intro j
  rw [getElem?_pick (by simp)]
  by_cases hj : j < xs.length
  · simp [List.getElem?_range hj]
  · have past : (List.range xs.length)[j]? = none := List.getElem?_eq_none (by simp; omega)
    rw [past, List.getElem?_eq_none (by omega)]
    rfl

theorem pick_skip {xs : List α} {i : Nat} (past : xs.length ≤ i) (idx : List Nat) :
    pick xs (i :: idx) = pick xs idx := by
  simp [pick, List.getElem?_eq_none past]

theorem pick_zipWith (f : α → β → γ) {xs : List α} {ys : List β} (same : xs.length = ys.length)
    (idx : List Nat) :
    pick (List.zipWith f xs ys) idx = List.zipWith f (pick xs idx) (pick ys idx) := by
  have length : (List.zipWith f xs ys).length = xs.length := by simp [same]
  induction idx with
  | nil => rfl
  | cons i idx ih =>
    by_cases hi : i < xs.length
    · rw [pick_cons (length ▸ hi), pick_cons hi, pick_cons (same ▸ hi), ih]
      simp
    · have past : xs.length ≤ i := Nat.le_of_not_lt hi
      rw [pick_skip (length ▸ past), pick_skip past, pick_skip (same ▸ past), ih]

theorem pick_zip {xs : List α} {ys : List β} (same : xs.length = ys.length) (idx : List Nat) :
    pick (xs.zip ys) idx = (pick xs idx).zip (pick ys idx) := pick_zipWith Prod.mk same idx

theorem slices_eq_pick (xs : List α) (idx : List Nat) :
    idx.flatMap (fun i => slice i (i + 1) xs) = pick xs idx := by
  induction idx with
  | nil => rfl
  | cons i idx ih =>
    rw [List.flatMap_cons, ih]
    by_cases hi : i < xs.length
    · rw [pick_cons hi]
      simp [slice, List.take_one, List.head?_drop, List.getElem?_eq_getElem hi]
    · have past : xs.length ≤ i := Nat.le_of_not_lt hi
      rw [pick_skip past]
      simp [slice, List.drop_eq_nil_of_le past]

/-- After the whole loop every position that was written holds the last index
written there; positions of a list without duplicates are written once. -/
theorem foldlM_scatter (entries : List (Nat × Nat)) (out : List Nat)
    (inside : ∀ e ∈ entries, e.1 < out.length) (distinct : (entries.map Prod.fst).Nodup) :
    ∃ res, entries.foldlM (fun out (e : Nat × Nat) => pySet out e.1 e.2) out = .ok res ∧
      res.length = out.length ∧ (∀ e ∈ entries, res[e.1]? = some e.2) ∧
      ∀ j, j ∉ entries.map Prod.fst → res[j]? = out[j]? := by
  induction entries generalizing out with
  | nil => exact ⟨out, rfl, rfl, by simp, by simp⟩
  | cons e entries ih =>
    have he : e.1 < out.length := inside e (by simp)
    have fresh : e.1 ∉ entries.map Prod.fst := by
      simp only [List.map_cons, List.nodup_cons] at distinct
      exact distinct.1
    obtain ⟨res, hres, hlen, hmem, hframe⟩ := ih (out.set e.1 e.2)
      (fun f hf => by simpa using inside f (by simp [hf]))
      (by simp only [List.map_cons, List.nodup_cons] at distinct; exact distinct.2)
    refine ⟨res, by simp [he, hres], by simpa using hlen, ?_, ?_⟩
    · intro f hf
      rcases List.mem_cons.mp hf with rfl | hf
      · rw [hframe _ fresh]
        simp [he]
      · exact hmem f hf
    · intro j hj
      simp only [List.map_cons, List.mem_cons, not_or] at hj
      rw [hframe j hj.2]
      simp [Ne.symm hj.1]

section Permutation

variable {n : Nat} {p : List Nat} (perm : p.Perm (List.range n))

include perm

theorem perm_inside : ∀ i ∈ p, i < n := fun _ member => List.mem_range.mp (perm.mem_iff.mp member)

theorem perm_length : p.length = n := by simpa using perm.length_eq

theorem perm_nodup : p.Nodup := perm.nodup_iff.mpr List.nodup_range

theorem takeRows_perm {xs : List α} (length : xs.length = n) : takeRows xs p = .ok (pick xs p) := by
  have all : p.all (· < xs.length) = true := by
    rw [length]
    simpa using perm_inside perm
  simp [takeRows, all]

theorem pick_perm {xs : List α} (length : xs.length = n) : (pick xs p).Perm xs := by
  have h : (pick xs p).Perm (pick xs (List.range n)) := perm.filterMap _
  rwa [← length, pick_range] at h

theorem scatter_spec : ∃ q, scatter p = .ok q ∧ q.Perm (List.range n) ∧
    pick q p = List.range n ∧ pick p q = List.range n := by
  have length := perm_length perm
  have inside := perm_inside perm
  obtain ⟨q, hq, hlen, hmem, _⟩ := foldlM_scatter p.zipIdx p
    (fun e he => by
      rw [length]
      exact inside _ (List.fst_mem_of_mem_zipIdx he))
    (by simpa [List.zipIdx_map_fst] using perm_nodup perm)
  have write : ∀ i (hi : i < p.length), q[p[i]]? = some i := fun i hi =>
    hmem (p[i], i) (List.mk_mem_zipIdx_iff_getElem?.mpr (List.getElem?_eq_getElem hi))
  have left : pick q p = List.range n := by
    apply List.ext_getElem?
    intro i
    rw [getElem?_pick (fun j hj => by rw [hlen, length]; exact inside j hj)]
    by_cases hi : i < p.length
    · rw [List.getElem?_eq_getElem hi, Option.bind_some, write i hi,
        List.getElem?_range (length ▸ hi)]
    · rw [List.getElem?_eq_none (by omega), List.getElem?_eq_none (by simp; omega)]
      rfl
  have read : ∀ j, j < n → ∃ i, i < p.length ∧ q[j]? = some i ∧ p[i]? = some j := by
    intro j hj
    obtain ⟨i, hi, rfl⟩ := List.mem_iff_getElem.mp (perm.mem_iff.mpr (List.mem_range.mpr hj))
    exact ⟨i, hi, write i hi, List.getElem?_eq_getElem hi⟩
  have bounded : ∀ i ∈ q, i < n := by
    intro i hi
    obtain ⟨j, hj, rfl⟩ := List.mem_iff_getElem.mp hi
    obtain ⟨i, hip, hqi, _⟩ := read j (by omega)
    rw [List.getElem?_eq_getElem hj] at hqi
    rw [Option.some.inj hqi]
    omega
  have right : pick p q = List.range n := by
    apply List.ext_getElem?
    intro j
    rw [getElem?_pick (fun i hi => by rw [length]; exact bounded i hi)]
    by_cases hj : j < n
    · obtain ⟨i, _, hqi, hpi⟩ := read j hj
      rw [hqi, Option.bind_some, hpi, List.getElem?_range hj]
    · rw [List.getElem?_eq_none (by omega), List.getElem?_eq_none (by simp; omega)]
      rfl
  refine ⟨q, hq, ?_, left, right⟩
  have h := pick_perm perm (show q.length = n by omega)
  rw [left] at h
  exact h.symm

end Permutation

section Positions

/-- The positions `start, .., start + size - 1` of the `j`-th block. -/
def blockIdx (size j : Nat) : List Nat := List.range' (j * size) size

@[simp] theorem length_blockIdx (size j : Nat) :
    (blockIdx size j).length = size := by simp [blockIdx]

theorem mem_blockIdx {size j i : Nat} :
    i ∈ blockIdx size j ↔ j * size ≤ i ∧ i < (j + 1) * size := by
  rw [blockIdx, List.mem_range'_1, Nat.succ_mul]

theorem blockIdx_inside {size count j : Nat} (hj : j < count) :
    ∀ i ∈ blockIdx size j, i < count * size := by
  intro i member
  have below := (mem_blockIdx.mp member).2
  exact below.trans_le (Nat.mul_le_mul_right size hj)

theorem flatten_blockIdx_block (size count j : Nat) :
    ((List.range count).map (fun i => blockIdx size (j * count + i))).flatten =
      blockIdx (count * size) j := by
  have grow : ∀ k, ((List.range k).map (fun i => blockIdx size (j * count + i))).flatten =
      List.range' (j * count * size) (k * size) := by
    intro k
    induction k with
    | zero => simp
    | succ k ih =>
      have next : j * count * size + k * size = (j * count + k) * size := (Nat.add_mul _ _ _).symm
      rw [List.range_succ, List.map_append, List.flatten_append, ih,
        Nat.succ_mul, ← List.range'_append_1, next]
      simp [blockIdx]
  rw [grow, blockIdx, Nat.mul_assoc]

theorem flatten_blockIdx (size count : Nat) :
    ((List.range count).map (blockIdx size)).flatten = List.range (count * size) := by
  have whole := flatten_blockIdx_block size count 0
  simp only [Nat.zero_mul, Nat.zero_add] at whole
  rw [whole]
  simp [blockIdx, List.range_eq_range']

theorem flatMap_range_single {k n : Nat} (hk : k < n) (xs : List α) :
    (List.range n).flatMap (fun i => if i = k then xs else []) = xs := by
  induction n with
  | zero => omega
  | succ n ih =>
    rw [List.range_succ, List.flatMap_append]
    rcases Nat.lt_succ_iff_lt_or_eq.mp hk with before | rfl
    · rw [ih before]
      simp [Nat.ne_of_gt before]
    · have empty : (List.range k).flatMap (fun i => if i = k then xs else []) = [] := by
        rw [List.flatMap_eq_nil_iff]
        intro i member
        simp [Nat.ne_of_lt (List.mem_range.mp member)]
      simp [empty]

theorem blockIdx_eq_map (size j : Nat) :
    blockIdx size j = (List.range size).map (fun i => j * size + i) :=
  List.range'_eq_map_range

theorem range_mul (a b : Nat) :
    List.range (a * b) =
      (List.range a).flatMap (fun i => (List.range b).map (fun j => i * b + j)) := by
  rw [← flatten_blockIdx, List.flatMap_def]
  congr 1
  exact List.map_congr_left (fun i _ => blockIdx_eq_map b i)

theorem map_range_mul (a b : Nat) (f : Nat → Nat → α) :
    (List.range (a * b)).map (fun k => f (k / b) (k % b)) =
      (List.range a).flatMap (fun i => (List.range b).map (f i)) := by
  rw [range_mul, List.map_flatMap]
  refine List.flatMap_congr (fun i _ => ?_)
  rw [List.map_map]
  refine List.map_congr_left (fun j member => ?_)
  have below : j < b := List.mem_range.mp member
  have quotient : (i * b + j) / b = i := by
    rw [Nat.mul_comm, Nat.mul_add_div (Nat.zero_lt_of_lt below),
      Nat.div_eq_of_lt below, Nat.add_zero]
  rw [Function.comp_apply, quotient, Nat.mul_add_mod_of_lt below]

theorem pick_blockIdx {size count i : Nat} (hi : i < count) (j : Nat) :
    pick (blockIdx (count * size) j) (blockIdx size i) = blockIdx size (j * count + i) := by
  have read : ∀ k ∈ blockIdx size i,
      (blockIdx (count * size) j)[k]? = some (j * (count * size) + k) := by
    intro k member
    have inside : k < count * size := blockIdx_inside hi k member
    rw [blockIdx_eq_map, List.getElem?_map, List.getElem?_range inside]
    rfl
  have shifted : pick (blockIdx (count * size) j) (blockIdx size i) =
      (blockIdx size i).map (fun k => j * (count * size) + k) := by
    rw [pick, ← List.filterMap_eq_map]
    exact List.filterMap_congr read
  rw [shifted, blockIdx, blockIdx, List.map_add_range', Nat.add_mul, Nat.mul_assoc]

theorem slice_eq_pick (start stop : Nat) (xs : List α) :
    slice start stop xs = pick xs (List.range' start (stop - start)) := by
  generalize stop - start = size, hsize : stop - start = size
  rw [slice, hsize]
  induction size generalizing start stop with
  | zero => simp
  | succ size ih =>
    have tail := ih (start + 1) (start + 1 + size) (by omega)
    rw [List.range'_succ]
    by_cases hi : start < xs.length
    · rw [pick_cons hi, ← tail, List.drop_eq_getElem_cons hi, List.take_succ_cons]
    · have past : xs.length ≤ start := Nat.le_of_not_lt hi
      rw [pick_skip past, ← tail, List.drop_eq_nil_of_le past, List.drop_eq_nil_of_le (by omega)]
      simp

theorem pick_blockIdx_eq (xs : List α) (size j : Nat) :
    pick xs (blockIdx size j) = (xs.drop (j * size)).take size := by
  have cut := slice_eq_pick (j * size) (j * size + size) xs
  rw [Nat.add_sub_cancel_left] at cut
  rw [blockIdx, ← cut, slice, Nat.add_sub_cancel_left]

section Uniform

variable {f : α → List β} {n : Nat} {xs : List α} (each : ∀ x ∈ xs, (f x).length = n)

include each

theorem drop_flatMap (k : Nat) : (xs.flatMap f).drop (k * n) = (xs.drop k).flatMap f := by
  induction xs generalizing k with
  | nil => simp
  | cons x xs ih =>
    cases k with
    | zero => simp
    | succ k =>
      have head : (f x).length = n := each x (by simp)
      rw [List.flatMap_cons, Nat.succ_mul, Nat.add_comm, ← head, List.drop_length_add_append, head,
        ih (fun y member => each y (by simp [member])), List.drop_succ_cons]

theorem take_flatMap (k : Nat) : (xs.flatMap f).take (k * n) = (xs.take k).flatMap f := by
  induction xs generalizing k with
  | nil => simp
  | cons x xs ih =>
    cases k with
    | zero => simp
    | succ k =>
      have head : (f x).length = n := each x (by simp)
      rw [List.flatMap_cons, Nat.succ_mul, Nat.add_comm, ← head, List.take_length_add_append, head,
        ih (fun y member => each y (by simp [member])), List.take_succ_cons, List.flatMap_cons]

theorem pick_flatMap_block (size j : Nat) :
    pick (xs.flatMap f) (blockIdx (size * n) j) = (pick xs (blockIdx size j)).flatMap f := by
  have later : ∀ x ∈ xs.drop (j * size), (f x).length = n :=
    fun x member => each x (List.mem_of_mem_drop member)
  rw [pick_blockIdx_eq, pick_blockIdx_eq, ← Nat.mul_assoc, drop_flatMap each, take_flatMap later]

theorem getElem?_flatMap {i j : Nat} (hj : j < n) :
    (xs.flatMap f)[i * n + j]? = xs[i]?.bind (fun x => (f x)[j]?) := by
  have first : (xs.flatMap f)[i * n + j]? = ((xs.drop i).flatMap f)[j]? := by
    rw [← drop_flatMap each, List.getElem?_drop]
  rw [first]
  by_cases hi : i < xs.length
  · rw [List.drop_eq_getElem_cons hi, List.flatMap_cons,
      List.getElem?_append_left (by rw [each _ (by simp)]; exact hj), List.getElem?_eq_getElem hi]
    rfl
  · rw [List.drop_eq_nil_of_le (Nat.le_of_not_lt hi), List.getElem?_eq_none (Nat.le_of_not_lt hi)]
    rfl

end Uniform

theorem pick_flatMap_replicate (xs : List α) (idx : List Nat) (times : Nat) :
    pick xs (idx.flatMap (List.replicate times)) =
      (pick xs idx).flatMap (List.replicate times) := by
  induction idx with
  | nil => rfl
  | cons i idx ih =>
    rw [List.flatMap_cons, pick_append, ih]
    by_cases hi : i < xs.length
    · rw [pick_cons hi, List.flatMap_cons]
      simp [pick, List.getElem?_eq_getElem hi]
    · have past : xs.length ≤ i := Nat.le_of_not_lt hi
      rw [pick_skip past]
      simp [pick, List.getElem?_eq_none past]

theorem pick_replicate_flatten (xs : List α) (idx : List Nat) (times : Nat) :
    pick xs (List.replicate times idx).flatten = (List.replicate times (pick xs idx)).flatten := by
  induction times with
  | zero => rfl
  | succ times ih =>
    rw [List.replicate_succ, List.flatten_cons, pick_append, ih, List.replicate_succ,
    List.flatten_cons]

theorem map_eq_of_forall₂ (f : α → γ) (g : β → γ) {xs : List α}
    {ys : List β} (each : List.Forall₂ (fun x y => f x = g y) xs ys) : xs.map f = ys.map g := by
  induction each with
  | nil => rfl
  | cons head _ ih => rw [List.map_cons, List.map_cons, head, ih]

end Positions

end Verl
