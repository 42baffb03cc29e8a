import Mathlib.Data.List.Nodup
import Verl.Base.Reindex

/-! The entries of a list that a mask keeps, read and written by their positions, and
the runs into which marked entries cut a list. -/
namespace Verl

variable {α : Type u}

def keep : List Bool → List α → List α
  | true :: mask, x :: xs => x :: keep mask xs
  | false :: mask, _ :: xs => keep mask xs
  | _, _ => []

@[simp] theorem keep_nil (xs : List α) : keep [] xs = [] := by
  cases xs <;> rfl

theorem keep_append {a b : List Bool} {xs ys : List α} (same : a.length = xs.length) :
    keep (a ++ b) (xs ++ ys) = keep a xs ++ keep b ys := by
  induction a generalizing xs with
  | nil =>
    cases xs with
    | nil => simp
    | cons x xs => cases same
  | cons c a ih =>
    cases xs with
    | nil => cases same
    | cons x xs =>
      have tail := ih (Nat.succ.inj same)
      cases c with
      | true => exact congrArg (x :: ·) tail
      | false => exact tail

theorem keep_flatten {ρ : Type v} {rows : List ρ} {mask : ρ → List Bool} {xs : ρ → List α}
    (same : ∀ row ∈ rows, (mask row).length = (xs row).length) :
    keep (rows.map mask).flatten (rows.map xs).flatten =
      (rows.map (fun row => keep (mask row) (xs row))).flatten := by
  induction rows with
  | nil => rfl
  | cons row rows ih =>
    simp only [List.map_cons, List.flatten_cons]
    rw [keep_append (same row List.mem_cons_self),
      ih (fun other later => same other (List.mem_cons_of_mem row later))]

theorem keep_false {n : Nat} {xs : List α} (length : xs.length = n) :
    keep (List.replicate n false) xs = [] := by
  induction n generalizing xs with
  | zero => simp
  | succ n ih =>
    cases xs with
    | nil => cases length
    | cons x xs => exact ih (Nat.succ.inj length)

theorem keep_true {n : Nat} {xs : List α} (length : xs.length = n) :
    keep (List.replicate n true) xs = xs := by
  induction n generalizing xs with
  | zero => simp [List.eq_nil_of_length_eq_zero length]
  | succ n ih =>
    cases xs with
    | nil => cases length
    | cons x xs => exact congrArg (x :: ·) (ih (Nat.succ.inj length))

theorem keep_sublist (mask : List Bool) (xs : List α) : (keep mask xs).Sublist xs := by
  induction mask generalizing xs with
  | nil => simp
  | cons c mask ih =>
    cases xs with
    | nil => cases c <;> simp [keep]
    | cons x xs =>
      cases c with
      | true => exact (ih xs).cons_cons x
      | false => exact (ih xs).cons x

theorem length_keep {mask : List Bool} {xs : List α} (same : mask.length = xs.length) :
    (keep mask xs).length = mask.count true := by
  induction mask generalizing xs with
  | nil => simp
  | cons c mask ih =>
    cases xs with
    | nil => cases same
    | cons x xs =>
      have tail := ih (Nat.succ.inj same)
      cases c with
      | true => simp [keep, tail]
      | false => simp [keep, tail]

theorem keep_zip {β : Type v} (mask : List Bool) {xs : List α} {ys : List β}
    (same : xs.length = ys.length) :
    keep mask (xs.zip ys) = (keep mask xs).zip (keep mask ys) := by
  induction mask generalizing xs ys with
  | nil => simp
  | cons c mask ih =>
    cases xs with
    | nil =>
      cases ys with
      | nil => cases c <;> simp [keep]
      | cons y ys => cases same
    | cons x xs =>
      cases ys with
      | nil => cases same
      | cons y ys =>
        have tail := ih (Nat.succ.inj same)
        cases c with
        | true => simp [keep, tail]
        | false => simp [keep, tail]

def rank (mask : List Bool) (j : Nat) : Nat := (mask.take j).count true

theorem rank_append {a b : List Bool} (j : Nat) :
    rank (a ++ b) (a.length + j) = a.count true + rank b j := by
  rw [rank, rank, List.take_length_add_append, List.count_append]

theorem getElem?_keep {mask : List Bool} {xs : List α} {j : Nat} (kept : mask[j]? = some true) :
    (keep mask xs)[rank mask j]? = xs[j]? := by
  induction mask generalizing xs j with
  | nil => simp at kept
  | cons c mask ih =>
    cases xs with
    | nil => cases c <;> simp [keep]
    | cons x xs =>
      cases j with
      | zero =>
        obtain rfl : c = true := by simpa using kept
        simp [rank, keep]
      | succ j =>
        have tail : (keep mask xs)[rank mask j]? = xs[j]? := ih (by simpa using kept)
        cases c with
        | true => simpa [rank, keep] using tail
        | false => simpa [rank, keep] using tail

theorem exists_of_mem_keep {mask : List Bool} {xs : List α} {x : α} (member : x ∈ keep mask xs) :
    ∃ i : Nat, mask[i]? = some true ∧ xs[i]? = some x := by
  induction mask generalizing xs with
  | nil => simp at member
  | cons c mask ih =>
    cases xs with
    | nil => cases c <;> cases member
    | cons y xs =>
      cases c with
      | true =>
        cases member with
        | head => exact ⟨0, rfl, rfl⟩
        | tail _ later =>
          obtain ⟨i, kept, there⟩ := ih later
          exact ⟨i + 1, kept, there⟩
      | false =>
        obtain ⟨i, kept, there⟩ := ih member
        exact ⟨i + 1, kept, there⟩

def nonzero (mask : List Bool) : List Nat := keep mask (List.range mask.length)

theorem nodup_nonzero (mask : List Bool) : (nonzero mask).Nodup :=
  List.nodup_range.sublist (keep_sublist mask _)

theorem getElem?_nonzero {mask : List Bool} {j : Nat} (kept : mask[j]? = some true) :
    (nonzero mask)[rank mask j]? = some j := by
  obtain ⟨inside, -⟩ := List.getElem?_eq_some_iff.mp kept
  rw [nonzero, getElem?_keep kept, List.getElem?_range inside]

theorem mem_nonzero {mask : List Bool} {j : Nat} (member : j ∈ nonzero mask) :
    mask[j]? = some true := by
  obtain ⟨i, kept, there⟩ := exists_of_mem_keep member
  obtain ⟨inside, same⟩ := List.getElem?_eq_some_iff.mp there
  rw [List.getElem_range] at same
  exact same ▸ kept

theorem pick_nonzero {mask : List Bool} {xs : List α} (same : mask.length = xs.length) :
    pick xs (nonzero mask) = keep mask xs := by
  have shifted : ∀ (mask : List Bool) (front xs : List α), mask.length = xs.length →
      pick (front ++ xs) (keep mask (List.range' front.length mask.length)) = keep mask xs := by
    intro mask
    induction mask with
    | nil => simp
    | cons c mask ih =>
      intro front xs same
      cases xs with
      | nil => cases same
      | cons x xs =>
        have tail := ih (front ++ [x]) xs (Nat.succ.inj same)
        rw [List.append_assoc, List.singleton_append, List.length_append,
          List.length_singleton] at tail
        have room : front.length < (front ++ x :: xs).length := by simp
        cases c with
        | true =>
          simp only [List.length_cons, List.range'_succ, keep]
          rw [pick_cons room, tail]
          simp
        | false =>
          simp only [List.length_cons, List.range'_succ, keep]
          exact tail
  have whole := shifted mask [] xs same
  rwa [List.nil_append, List.length_nil, ← List.range_eq_range'] at whole

def put (positions : List Nat) (values out : List α) : List α :=
  (positions.zip values).foldl (fun out entry => out.set entry.1 entry.2) out

@[simp] theorem length_put (positions : List Nat) (values out : List α) :
    (put positions values out).length = out.length := by
  unfold put
  generalize positions.zip values = entries
  induction entries generalizing out with
  | nil => rfl
  | cons e entries ih => rw [List.foldl_cons, ih, List.length_set]

theorem getElem?_put_of_notMem {positions : List Nat} {j : Nat} (absent : j ∉ positions)
    (values out : List α) : (put positions values out)[j]? = out[j]? := by
  induction positions generalizing values out with
  | nil => rfl
  | cons i positions ih =>
    rw [List.mem_cons, not_or] at absent
    cases values with
    | nil => rfl
    | cons v values =>
      refine (ih absent.2 values (out.set i v)).trans ?_
      rw [List.getElem?_set_ne (fun same => absent.1 same.symm)]

theorem getElem?_put {positions : List Nat} (distinct : positions.Nodup) {values out : List α}
    {j k : Nat} {v : α}
    (there : positions[k]? = some j) (value : values[k]? = some v) (inside : j < out.length) :
    (put positions values out)[j]? = some v := by
  induction positions generalizing values out k with
  | nil => simp at there
  | cons i positions ih =>
    obtain ⟨absent, rest⟩ := List.nodup_cons.mp distinct
    cases values with
    | nil => simp at value
    | cons w values =>
      cases k with
      | zero =>
        obtain rfl : i = j := by simpa using there
        obtain rfl : w = v := by simpa using value
        refine (getElem?_put_of_notMem absent values (out.set i w)).trans ?_
        rw [List.getElem?_set_self inside]
      | succ k =>
        exact ih rest (by simpa using there) (by simpa using value) (by rwa [List.length_set])

theorem pick_put {positions : List Nat} (distinct : positions.Nodup) {values out : List α}
    (same : values.length = positions.length) (inside : ∀ i ∈ positions, i < out.length) :
    pick (put positions values out) positions = values := by
  have read : positions.map (fun i => (put positions values out)[i]?) = values.map some := by
    refine List.ext_getElem (by simpa using same.symm) (fun k there value => ?_)
    rw [List.getElem_map, List.getElem_map]
    exact getElem?_put distinct (List.getElem?_eq_getElem _) (List.getElem?_eq_getElem _)
      (inside _ (List.getElem_mem _))
  calc pick (put positions values out) positions
      = (positions.map (fun i => (put positions values out)[i]?)).filterMap id := by
        rw [List.filterMap_map]
        rfl
    _ = values := by
        rw [read, List.filterMap_map]
        exact List.filterMap_some

theorem keep_put {mask : List Bool} {values out : List α}
    (count : values.length = (nonzero mask).length)
    (same : mask.length = out.length) : keep mask (put (nonzero mask) values out) = values := by
  rw [← pick_nonzero (same.trans (length_put _ _ _).symm)]
  refine pick_put (nodup_nonzero mask) count (fun i member => ?_)
  rw [← same]
  exact List.mem_range.mp ((keep_sublist mask _).subset member)

section Segments

variable (starts : α → Bool)

/-- What an entry sees that looks back to the last start; `current` is what came before. -/
def segmentsFrom (current : List α) : List α → List (List α)
  | [] => []
  | x :: xs =>
    let now := if starts x then [x] else current ++ [x]
    now :: segmentsFrom now xs

def segmentPrefixes (xs : List α) : List (List α) := segmentsFrom starts [] xs

@[simp] theorem length_segmentsFrom (current xs : List α) :
    (segmentsFrom starts current xs).length = xs.length := by
  induction xs generalizing current with
  | nil => rfl
  | cons x xs ih => simp [segmentsFrom, ih]

variable {starts}

theorem segmentsFrom_append {current xs : List α} {i : Nat} (inside : i < xs.length) (ys : List α) :
    (segmentsFrom starts current (xs ++ ys))[i]? = (segmentsFrom starts current xs)[i]? := by
  induction xs generalizing current i with
  | nil => cases inside
  | cons x xs ih =>
    cases i with
    | zero => rfl
    | succ i => exact ih (Nat.lt_of_succ_lt_succ inside)

theorem segmentsFrom_start {x : α} (start : starts x = true)
    (current before xs : List α) (k : Nat) :
    (segmentsFrom starts current (before ++ x :: xs))[before.length + k]? =
      (segmentsFrom starts [] (x :: xs))[k]? := by
  induction before generalizing current with
  | nil => simp [segmentsFrom, start]
  | cons b before ih =>
    rw [List.length_cons, Nat.add_right_comm]
    exact ih _

theorem segmentsFrom_run {current xs : List α} (none : ∀ x ∈ xs, starts x = false) {k : Nat}
    (inside : k < xs.length) :
    (segmentsFrom starts current xs)[k]? = some (current ++ xs.take (k + 1)) := by
  induction xs generalizing current k with
  | nil => cases inside
  | cons x xs ih =>
    have first := none x List.mem_cons_self
    cases k with
    | zero => simp [segmentsFrom, first]
    | succ k =>
      have tail : (segmentsFrom starts (current ++ [x]) xs)[k]? =
        some (current ++ [x] ++ xs.take (k + 1)) :=
        ih (fun y member => none y (List.mem_cons_of_mem x member)) (Nat.lt_of_succ_lt_succ inside)
      simpa [segmentsFrom, first] using tail

/-- Inside a run that starts in the middle of a list only the run is seen. -/
theorem segmentPrefixes_run {x : α} {xs : List α} (start : starts x = true)
    (none : ∀ y ∈ xs, starts y = false) {k : Nat}
    (inside : k < (x :: xs).length) (before after : List α) :
    (segmentPrefixes starts (before ++ ((x :: xs) ++ after)))[before.length + k]? =
      some ((x :: xs).take (k + 1)) := by
  rw [segmentPrefixes, List.cons_append, segmentsFrom_start start, ← List.cons_append,
    segmentsFrom_append inside]
  cases k with
  | zero => simp [segmentsFrom, start]
  | succ k =>
    have tail : (segmentsFrom starts [x] xs)[k]? = some ([x] ++ xs.take (k + 1)) :=
      segmentsFrom_run none (Nat.lt_of_succ_lt_succ inside)
    simpa [segmentsFrom, start] using tail

end Segments

end Verl
