import Mathlib.Data.List.Basic

/-! Cutting a list into consecutive blocks and putting it together again.
A block past the end is shorter or empty, so every cut of the programs modelled
here (`split`, `chunk`, `array_split`, a slice per rank) is an instance. -/
namespace Verl

variable {α : Type u} {β : Type v}

def slice (start stop : Nat) (xs : List α) : List α := (xs.drop start).take (stop - start)

def block (size j : Nat) (xs : List α) : List α := slice (j * size) ((j + 1) * size) xs

def blocks (size count : Nat) (xs : List α) : List (List α) :=
  (List.range count).map (fun j => block size j xs)

theorem slice_map (f : α → β) (start stop : Nat) (xs : List α) :
    slice start stop (xs.map f) = (slice start stop xs).map f := by
  simp [slice, List.map_take, List.map_drop]

theorem block_eq (size j : Nat) (xs : List α) :
    block size j xs = (xs.drop (j * size)).take size := by
  have h : (j + 1) * size - j * size = size := by
    rw [Nat.succ_mul]
    omega
  simp [block, slice, h]

@[simp] theorem length_blocks (size count : Nat) (xs : List α) :
    (blocks size count xs).length = count := by simp [blocks]

@[simp] theorem getElem_blocks (size count : Nat) (xs : List α) (j : Nat)
    (hj : j < (blocks size count xs).length) : (blocks size count xs)[j] = block size j xs := by
  simp [blocks]

theorem length_block {size j : Nat} {xs : List α} (fits : (j + 1) * size ≤ xs.length) :
    (block size j xs).length = size := by
  rw [Nat.succ_mul] at fits
  rw [block_eq]
  simp
  omega

theorem length_of_mem_blocks {size count : Nat} {xs : List α} (covers : xs.length = count * size) :
    ∀ piece ∈ blocks size count xs, piece.length = size := by
  intro piece member
  obtain ⟨j, inside, rfl⟩ := List.mem_map.mp member
  apply length_block
  rw [covers]
  exact Nat.mul_le_mul_right size (List.mem_range.mp inside)

theorem blocks_succ (size count : Nat) (xs : List α) :
    blocks size (count + 1) xs = xs.take size :: blocks size count (xs.drop size) := by
  have shift : ∀ j, block size (j + 1) xs = block size j (xs.drop size) := by
    intro j
    rw [block_eq, block_eq, List.drop_drop]
    congr 2
    rw [Nat.succ_mul]
    omega
  have first : block size 0 xs = xs.take size := by simp [block_eq]
  simp only [blocks, List.range_succ_eq_map, List.map_cons, List.map_map, first]
  congr 1
  exact List.map_congr_left (fun j _ => shift j)

theorem flatten_blocks_take (size count : Nat) (xs : List α) :
    (blocks size count xs).flatten = xs.take (count * size) := by
  induction count generalizing xs with
  | zero => simp [blocks]
  | succ count ih =>
    rw [blocks_succ, List.flatten_cons, ih, Nat.succ_mul, Nat.add_comm, List.take_add]

theorem flatten_blocks (size count : Nat) (xs : List α) (covers : xs.length ≤ count * size) :
    (blocks size count xs).flatten = xs := by
  rw [flatten_blocks_take, List.take_of_length_le covers]

theorem flatten_run (size count g : Nat) (xs : List α) :
    ((List.range count).map (fun j => block size (g * count + j) xs)).flatten =
      block (count * size) g xs := by
  have shift : ∀ j, block size (g * count + j) xs =
      block size j (xs.drop (g * (count * size))) := by
    intro j
    rw [block_eq, block_eq, List.drop_drop, ← Nat.mul_assoc, ← Nat.add_mul]
  simp only [shift]
  rw [block_eq]
  exact flatten_blocks_take size count _

theorem block_map_range {total size g : Nat} (f : Nat → α) (inside : (g + 1) * size ≤ total) :
    block size g ((List.range total).map f) =
      (List.range size).map (fun j => f (g * size + j)) := by
  rw [Nat.succ_mul] at inside
  refine List.ext_getElem ?_ (fun j hj _ => ?_)
  · rw [length_block (by rw [List.length_map, List.length_range, Nat.succ_mul]; exact inside)]
    simp
  · simp [block_eq]

theorem blocks_flatten (size : Nat) (xss : List (List α)) (each : ∀ xs ∈ xss, xs.length = size) :
    blocks size xss.length xss.flatten = xss := by
  induction xss with
  | nil => rfl
  | cons xs xss ih =>
    have head : xs.length = size := each xs (by simp)
    have tail := ih (fun ys member => each ys (by simp [member]))
    rw [List.length_cons, blocks_succ, List.flatten_cons, ← head, List.take_left, List.drop_left,
      head, tail]

theorem mem_of_mem_block {size j : Nat} {xs : List α} {x : α} (member : x ∈ block size j xs) :
    x ∈ xs :=
  List.mem_of_mem_drop (List.mem_of_mem_take member)

theorem eq_of_flatten_eq {xss yss : List (List α)}
    (lengths : List.Forall₂ (fun xs ys => xs.length = ys.length) xss yss)
    (same : xss.flatten = yss.flatten) : xss = yss := by
  induction lengths with
  | nil => rfl
  | cons head _ ih =>
    simp only [List.flatten_cons] at same
    obtain ⟨h1, h2⟩ := List.append_inj same head
    rw [h1, ih h2]

/-- `torch.split`: blocks of `size`, the last one shorter; one empty piece for an empty list. -/
def split (size : Nat) (xs : List α) : List (List α) :=
  blocks size (max 1 ((xs.length + size - 1) / size)) xs

theorem flatten_split {size : Nat} (positive : 0 < size) (xs : List α) :
    (split size xs).flatten = xs := by
  apply flatten_blocks
  have room : xs.length ≤ (xs.length + size - 1) / size * size := by
    have h := Nat.div_add_mod (xs.length + size - 1) size
    have r := Nat.mod_lt (xs.length + size - 1) positive
    rw [Nat.mul_comm] at h
    omega
  exact Nat.le_trans room (Nat.mul_le_mul_right size (Nat.le_max_right _ _))

theorem split_short {size : Nat} (positive : 0 < size) {xs : List α} (short : xs.length ≤ size) :
    split size xs = [xs] := by
  have count : max 1 ((xs.length + size - 1) / size) = 1 := by
    have below : (xs.length + size - 1) / size < 2 := by
      apply Nat.div_lt_of_lt_mul
      omega
    omega
  rw [split, count, blocks_succ, List.take_of_length_le short]
  rfl

theorem split_long {size : Nat} (positive : 0 < size) {xs : List α} (long : size < xs.length) :
    split size xs = xs.take size :: split size (xs.drop size) := by
  have count : max 1 ((xs.length + size - 1) / size) =
      max 1 ((xs.length - size + size - 1) / size) + 1 := by
    have shift : xs.length + size - 1 = xs.length - size + size - 1 + size := by omega
    have one : 1 ≤ (xs.length - size + size - 1) / size :=
      (Nat.one_le_div_iff positive).mpr (by omega)
    rw [shift, Nat.add_div_right _ positive]
    omega
  rw [split, count, blocks_succ, split, List.length_drop]

/-- The pieces are full, except for a last one when the size does not divide the length. -/
theorem forall_split_iff {size : Nat} (positive : 0 < size) (xs : List α) (P : Nat → Prop) :
    (∀ piece ∈ split size xs, P piece.length) ↔
      (size ≤ xs.length → P size) ∧
        (¬ size ∣ xs.length ∨ xs.length = 0 → P (xs.length % size)) := by
  induction h : xs.length using Nat.strongRecOn generalizing xs with
  | ind n ih =>
    subst h
    rcases Nat.lt_or_ge size xs.length with long | short
    · have smaller : (xs.drop size).length < xs.length := by
        rw [List.length_drop]
        omega
      have full : (xs.take size).length = size := List.length_take_of_le (Nat.le_of_lt long)
      have left : (xs.drop size).length = xs.length - size := List.length_drop
      have rest := ih _ smaller (xs.drop size) rfl
      have divides : size ∣ xs.length - size ↔ size ∣ xs.length :=
        (Nat.dvd_sub_iff_left (Nat.le_of_lt long) (Nat.dvd_refl size))
      have remainder : (xs.length - size) % size = xs.length % size :=
        (Nat.mod_eq_sub_mod (Nat.le_of_lt long)).symm
      rw [left, divides, remainder] at rest
      rw [split_long positive long, List.forall_mem_cons, full, rest]
      constructor
      · rintro ⟨here, -, last⟩
        refine ⟨fun _ => here, ?_⟩
        rintro (short | none)
        · exact last (.inl short)
        · omega
      · rintro ⟨here, last⟩
        refine ⟨here (Nat.le_of_lt long), fun _ => here (Nat.le_of_lt long), ?_⟩
        rintro (short | none)
        · exact last (.inl short)
        · omega
    · rw [split_short positive short, List.forall_mem_singleton]
      rcases Nat.eq_or_lt_of_le short with full | less
      · rw [full]
        constructor
        · intro here
          refine ⟨fun _ => here, ?_⟩
          rintro (short | none)
          · exact absurd (Nat.dvd_refl size) short
          · omega
        · exact fun both => both.1 (Nat.le_refl _)
      · rw [Nat.mod_eq_of_lt less]
        constructor
        · exact fun here => ⟨fun le => absurd le (by omega), fun _ => here⟩
        · rintro ⟨-, last⟩
          apply last
          rcases Nat.eq_zero_or_pos xs.length with none | some
          · exact .inr none
          · exact .inl (fun divides => absurd (Nat.le_of_dvd some divides) (by omega))

theorem forall_split_full_iff {size : Nat} (positive : 0 < size) (xs : List α) :
    (∀ piece ∈ split size xs, piece.length = size) ↔ xs.length ≠ 0 ∧ size ∣ xs.length := by
  rw [forall_split_iff positive xs (fun r => r = size)]
  have small := Nat.ne_of_lt (Nat.mod_lt xs.length positive)
  constructor
  · rintro ⟨-, last⟩
    constructor
    · exact fun none => absurd (last (.inr none)) small
    · by_contra short
      exact small (last (.inl short))
  · rintro ⟨some, divides⟩
    refine ⟨fun _ => rfl, ?_⟩
    rintro (short | none)
    · exact absurd divides short
    · exact absurd none some

theorem forall_const_iff {f : α → β} {xs : List α} {b : β} (nonempty : xs ≠ [])
    (const : ∀ x ∈ xs, f x = b) (P : β → Prop) : (∀ x ∈ xs, P (f x)) ↔ P b := by
  obtain ⟨first, member⟩ := List.exists_mem_of_ne_nil xs nonempty
  constructor
  · intro each
    have here := each first member
    rwa [const first member] at here
  · intro here x member
    rwa [const x member]

section Tables

theorem range_three (a b c : Nat) :
    List.range (a + b + c) = List.range' 0 a ++ List.range' a b ++ List.range' (a + b) c := by
  have front := List.range'_append_1 (s := 0) (m := a) (n := b)
  have whole := List.range'_append_1 (s := 0) (m := a + b) (n := c)
  rw [Nat.zero_add] at front whole
  rw [List.range_eq_range', front, whole]

theorem slice_map_range {start stop bs : Nat} (inside : stop ≤ bs) (f : Nat → α) :
    slice start stop ((List.range bs).map f) = (List.range' start (stop - start)).map f := by
  unfold slice
  rw [← List.map_drop, ← List.map_take, List.range_eq_range', List.drop_range',
    Nat.zero_add, Nat.mul_one, List.take_range'_of_length_ge (by omega)]

theorem splice_map_range (start size rest : Nat) (f g : Nat → α) :
    ((List.range (start + size + rest)).map f).take start ++ (List.range' start size).map g ++
        ((List.range (start + size + rest)).map f).drop (start + size) =
      (List.range (start + size + rest)).map (fun i => if start ≤ i ∧ i < start + size then g i
        else f i) := by
  have outside : ∀ i ∈ List.range' 0 start ++ List.range' (start + size) rest,
      ¬(start ≤ i ∧ i < start + size) := by
    intro i member
    simp only [List.mem_append, List.mem_range'_1] at member
    omega
  have front : ((List.range (start + size + rest)).map f).take start =
      (List.range' 0 start).map f := by
    rw [← List.map_take, List.range_eq_range', List.take_range'_of_length_ge (by omega)]
  have back : ((List.range (start + size + rest)).map f).drop (start + size) =
      (List.range' (start + size) rest).map f := by
    rw [← List.map_drop, List.range_eq_range', List.drop_range', Nat.zero_add, Nat.mul_one,
      Nat.add_sub_cancel_left]
  rw [front, back, range_three, List.map_append, List.map_append]
  congr 1
  · congr 1
    · apply List.map_congr_left
      intro i member
      rw [if_neg (outside i (List.mem_append_left _ member))]
    · apply List.map_congr_left
      intro i member
      rw [if_pos (List.mem_range'_1.mp member)]
  · apply List.map_congr_left
    intro i member
    rw [if_neg (outside i (List.mem_append_right _ member))]

end Tables

section Overwrite

/-- `xs[start:start + len(ys)] = ys`, on an array that reaches that far. -/
def overwrite (start : Nat) (ys xs : List α) : List α :=
  xs.take start ++ ys ++ xs.drop (start + ys.length)

variable {start a b : Nat} {xs ys : List α}

theorem length_overwrite (inside : start + ys.length ≤ xs.length) :
    (overwrite start ys xs).length = xs.length := by
  simp only [overwrite, List.length_append, List.length_take, List.length_drop]
  omega

theorem slice_overwrite (inside : start + ys.length ≤ xs.length) :
    slice start (start + ys.length) (overwrite start ys xs) = ys := by
  have front : (xs.take start).length = start := List.length_take_of_le (by omega)
  rw [slice, overwrite, List.append_assoc, List.drop_left' front, Nat.add_sub_cancel_left,
    List.take_left]

theorem slice_overwrite_apart (inside : start + ys.length ≤ xs.length)
    (apart : b ≤ start ∨ start + ys.length ≤ a) :
    slice a b (overwrite start ys xs) = slice a b xs := by
  have front : (xs.take start).length = start := List.length_take_of_le (by omega)
  rcases apart with before | behind
  · rw [slice, slice, ← List.drop_take, ← List.drop_take, overwrite, List.append_assoc,
      List.take_append_of_le_length (by omega), List.take_take, Nat.min_eq_left before]
  · have length : (xs.take start ++ ys).length = start + ys.length := by
      rw [List.length_append, front]
    obtain ⟨k, rfl⟩ := Nat.exists_eq_add_of_le behind
    have same : (overwrite start ys xs).drop (start + ys.length + k) =
        xs.drop (start + ys.length + k) := by
      have cut : (overwrite start ys xs).drop (start + ys.length) =
          xs.drop (start + ys.length) := by
        rw [overwrite, List.drop_left' length]
      calc (overwrite start ys xs).drop (start + ys.length + k) =
        ((overwrite start ys xs).drop (start + ys.length)).drop k := List.drop_drop.symm
        _ = (xs.drop (start + ys.length)).drop k := by rw [cut]
        _ = xs.drop (start + ys.length + k) := List.drop_drop
    rw [slice, slice, same]

end Overwrite

end Verl
