import Mathlib.Logic.Function.Basic
import Mathlib.Data.Nat.Basic
import Mathlib.Tactic.Ring
import Verl.Base.Python

/-! Dense tensors of a fixed rank, cut and concatenated along one dimension. An entry outside the
shape is 0, so two tensors with the same shape and the same entries inside it are equal. -/
namespace Verl

def Inside {r : Nat} (shape index : Fin r → Nat) : Prop := ∀ k, index k < shape k

instance {r : Nat} (shape index : Fin r → Nat) : Decidable (Inside shape index) :=
  Nat.decidableForallFin _

def AgreeOff {r : Nat} (d : Fin r) (shape other : Fin r → Nat) : Prop :=
  ∀ k, k ≠ d → shape k = other k

instance {r : Nat} (d : Fin r) (shape other : Fin r → Nat) : Decidable (AgreeOff d shape other) :=
  Nat.decidableForallFin _

def SameShape {r : Nat} (shape other : Fin r → Nat) : Prop := ∀ k, shape k = other k

instance {r : Nat} (shape other : Fin r → Nat) : Decidable (SameShape shape other) :=
  Nat.decidableForallFin _

structure Tensor (r : Nat) (α : Type) [Zero α] where
  shape : Fin r → Nat
  entry : (Fin r → Nat) → α
  outside : ∀ i, ¬Inside shape i → entry i = 0

namespace Tensor

variable {r : Nat} {α : Type} [Zero α]

section Model

def make (shape : Fin r → Nat) (f : (Fin r → Nat) → α) : Tensor r α where
  shape := shape
  entry := fun i => if Inside shape i then f i else 0
  outside := fun _ out => if_neg out

def zeros (shape : Fin r → Nat) : Tensor r α := make shape (fun _ => 0)

/-- `x[..., start:stop, ...]` on dimension `d`, for bounds that are not negative. -/
def narrow (d : Fin r) (start stop : Nat) (x : Tensor r α) : Tensor r α :=
  make (Function.update x.shape d (min stop (x.shape d) - start)) (fun i =>
    x.entry (Function.update i d (start + i d)))

/-- `torch.cat([x, y], dim=d)` of tensors that agree on the other dimensions. -/
def append (d : Fin r) (x y : Tensor r α) : Tensor r α :=
  make (Function.update x.shape d (x.shape d + y.shape d))
    (fun i => if i d < x.shape d then x.entry i
      else y.entry (Function.update i d (i d - x.shape d)))

def cat (d : Fin r) : List (Tensor r α) → Py (Tensor r α)
  | [] => .error (.runtime "torch.cat(): expected a non-empty list of Tensors")
  | x :: xs =>
    if xs.all (fun y => decide (AgreeOff d x.shape y.shape)) then .ok (xs.foldl (append d) x)
    else .error (.runtime "Sizes of tensors must match except in dimension")

/-- `torch.tensor_split` into `n` pieces: the first `size % n` of them have one entry more. -/
def tensorSplit (n : Nat) (d : Fin r) (x : Tensor r α) : List (Tensor r α) :=
  let start := fun j => j * (x.shape d / n) + min j (x.shape d % n)
  (List.range n).map (fun j => narrow d (start j) (start (j + 1)) x)

/-- `x.split(size, dim=d)`: at least one piece, also of an empty dimension. -/
def split (size : Nat) (d : Fin r) (x : Tensor r α) : Py (List (Tensor r α)) :=
  if size = 0 ∧ x.shape d ≠ 0 then
    .error (.runtime "split_size can only be 0 if dimension size is 0")
  else
    let count := if size = 0 then 1 else max ((x.shape d + size - 1) / size) 1
    .ok ((List.range count).map (fun j => narrow d (j * size) ((j + 1) * size) x))

def scale [Mul α] (c : α) (x : Tensor r α) : Tensor r α := make x.shape (fun i => x.entry i * c)

def shard (d : Fin r) (size j : Nat) (x : Tensor r α) : Tensor r α :=
  narrow d (j * size) ((j + 1) * size) x

def joined (d : Fin r) (n : Nat) (shape : Fin r → Nat) (pieces : Nat → Tensor r α) : Tensor r α :=
  make (Function.update shape d (n * shape d)) (fun i =>
    (pieces (i d / shape d)).entry (Function.update i d (i d % shape d)))

def firstDim (r : Nat) : Fin (r + 1) := ⟨0, Nat.succ_pos r⟩

/-- `F.pad(x, pads, value=value)`: amounts before and behind, from the last dimension on. -/
def pad (pads : List Nat) (value : α) (x : Tensor r α) : Tensor r α :=
  let before := fun k : Fin r => pads.getD (2 * (r - 1 - k)) 0
  let behind := fun k : Fin r => pads.getD (2 * (r - 1 - k) + 1) 0
  make (fun k => before k + x.shape k + behind k)
    (fun i => if ∀ k, before k ≤ i k ∧ i k < before k + x.shape k then
      x.entry (fun k => i k - before k) else value)

end Model

section Entries

theorem entry_make {shape : Fin r → Nat} {f : (Fin r → Nat) → α} {i : Fin r → Nat}
    (inside : Inside shape i) : (make shape f).entry i = f i := if_pos inside

@[simp] theorem shape_make (shape : Fin r → Nat) (f : (Fin r → Nat) → α) :
    (make shape f).shape = shape := rfl

theorem entry_zeros (shape i : Fin r → Nat) : (zeros shape : Tensor r α).entry i = 0 := ite_self 0

theorem eq_of_entries {x y : Tensor r α} (shape : x.shape = y.shape)
    (entries : ∀ i, Inside x.shape i → x.entry i = y.entry i) : x = y := by
  cases x with
  | mk shapeX entryX outsideX =>
    cases y with
    | mk shapeY entryY outsideY =>
      cases shape
      have same : entryX = entryY := by
        funext i
        by_cases inside : Inside shapeX i
        · exact entries i inside
        · rw [outsideX i inside, outsideY i inside]
      cases same
      rfl

theorem inside_off {shape i : Fin r → Nat} {d : Fin r} {size : Nat}
    (inside : Inside (Function.update shape d size) i) (k : Fin r)
    (other : k ≠ d) : i k < shape k := by
  have bound := inside k
  rwa [Function.update_of_ne other] at bound

theorem inside_put {shape i : Fin r → Nat} {d : Fin r} {size v : Nat}
    (off : ∀ k, k ≠ d → i k < shape k) (below : v < size) :
    Inside (Function.update shape d size) (Function.update i d v) := by
  intro k
  by_cases here : k = d
  · subst here
    simpa using below
  · rw [Function.update_of_ne here, Function.update_of_ne here]
    exact off k here

theorem inside_self {shape i : Fin r → Nat} {d : Fin r} {size : Nat}
    (inside : Inside (Function.update shape d size) i) : i d < size := by
  simpa using inside d

theorem make_eq {shape : Fin r → Nat} {f : (Fin r → Nat) → α} {x : Tensor r α}
    (same : shape = x.shape)
    (entries : ∀ i, Inside shape i → f i = x.entry i) : make shape f = x := by
  apply eq_of_entries same
  intro i inside
  exact (entry_make inside).trans (entries i inside)

end Entries

section Pieces

variable {d : Fin r} {n : Nat} {shape : Fin r → Nat} {pieces : Nat → Tensor r α}

theorem append_joined (same : ∀ j < n + 1, (pieces j).shape = shape) :
    append d (joined d n shape pieces) (pieces n) = joined d (n + 1) shape pieces := by
  have size : (pieces n).shape d = shape d := by rw [same n (Nat.lt_succ_self n)]
  have whole : Function.update (joined d n shape pieces).shape d
    ((joined d n shape pieces).shape d + (pieces n).shape d) =
      (joined d (n + 1) shape pieces).shape := by
    simp only [joined, shape_make, Function.update_idem, Function.update_self, size, Nat.succ_mul]
  apply make_eq whole
  intro i inside
  rw [whole, joined, shape_make] at inside
  have below : i d < (n + 1) * shape d := inside_self inside
  rw [joined, joined, entry_make inside, shape_make, Function.update_self]
  split
  · rename_i early
    have place := inside_put (inside_off inside) early
    rw [Function.update_eq_self] at place
    rw [entry_make place]
  · rename_i late
    have quotient : i d / shape d = n := by
      apply Nat.div_eq_of_lt_le (Nat.le_of_not_lt late)
      exact below
    rw [quotient, Nat.mod_eq_sub_mul_div, quotient, Nat.mul_comm]

theorem foldl_append_pieces (same : ∀ j < n + 1, (pieces j).shape = shape) :
    ((List.range n).map (fun j => pieces (j + 1))).foldl (append d) (pieces 0) =
      joined d (n + 1) shape pieces := by
  induction n with
  | zero =>
    rw [List.range_zero, List.map_nil, List.foldl_nil]
    symm
    apply make_eq
    · rw [Nat.one_mul, Function.update_eq_self, same 0 Nat.one_pos]
    · intro i inside
      rw [Nat.one_mul, Function.update_eq_self] at inside
      have below := inside d
      rw [Nat.div_eq_of_lt below, Nat.mod_eq_of_lt below, Function.update_eq_self]
  | succ n ih =>
    have earlier := ih (fun j below => same j (Nat.lt_succ_of_lt below))
    rw [List.range_succ, List.map_append, List.foldl_append, earlier]
    exact append_joined same

theorem cat_pieces (positive : 0 < n) (same : ∀ j < n, (pieces j).shape = shape) :
    cat d ((List.range n).map pieces) = .ok (joined d n shape pieces) := by
  obtain ⟨m, rfl⟩ := Nat.exists_eq_succ_of_ne_zero (Nat.pos_iff_ne_zero.mp positive)
  have agree : ((List.range m).map (fun j => pieces (j + 1))).all
      (fun y => decide (AgreeOff d (pieces 0).shape y.shape)) = true := by
    rw [List.all_eq_true]
    intro y member
    obtain ⟨j, below, rfl⟩ := List.mem_map.mp member
    have other := same (j + 1) (Nat.succ_lt_succ (List.mem_range.mp below))
    rw [decide_eq_true_iff]
    intro k _
    rw [same 0 positive, other]
  rw [List.range_succ_eq_map, List.map_cons, List.map_map, cat]
  simp only [Function.comp_def, Nat.succ_eq_add_one, agree, if_true, foldl_append_pieces same]

theorem shard_joined (same : ∀ j < n, (pieces j).shape = shape) {j : Nat} (below : j < n) :
    shard d (shape d) j (joined d n shape pieces) = pieces j := by
  have room : (j + 1) * shape d ≤ n * shape d := Nat.mul_le_mul_right _ below
  have size : min ((j + 1) * shape d) (n * shape d) - j * shape d = shape d := by
    rw [Nat.min_eq_left room, Nat.succ_mul, Nat.add_sub_cancel_left]
  apply make_eq
  · simp only [joined, shape_make, Function.update_self, Function.update_idem, size,
      Function.update_eq_self, same j below]
  · intro i inside
    simp only [joined, shape_make, Function.update_self, Function.update_idem, size,
      Function.update_eq_self] at inside
    have entry := inside d
    have positive : 0 < shape d := Nat.zero_lt_of_lt entry
    have place : Inside (Function.update shape d (n * shape d))
        (Function.update i d (j * shape d + i d)) := by
      apply inside_put (fun k _ => inside k)
      rw [Nat.succ_mul] at room
      omega
    rw [joined, entry_make place, Function.update_self, Function.update_idem, Nat.mul_comm j,
      Nat.mul_add_div positive, Nat.mul_add_mod, Nat.div_eq_of_lt entry, Nat.mod_eq_of_lt entry,
      Nat.add_zero, Function.update_eq_self]

end Pieces

section Shards

variable {d : Fin r} {n size : Nat} {x : Tensor r α}

theorem shape_shard (whole : x.shape d = n * size) {j : Nat} (below : j < n) :
    (shard d size j x).shape = Function.update x.shape d size := by
  have room : (j + 1) * size ≤ n * size := Nat.mul_le_mul_right _ below
  rw [shard, narrow, shape_make, whole, Nat.min_eq_left room, Nat.succ_mul, Nat.add_sub_cancel_left]

theorem entry_shard {j : Nat} {i : Fin r → Nat} (inside : Inside (shard d size j x).shape i) :
    (shard d size j x).entry i = x.entry (Function.update i d (j * size + i d)) := entry_make inside

theorem joined_shards (whole : x.shape d = n * size) :
    joined d n (Function.update x.shape d size) (fun j => shard d size j x) = x := by
  have shape : Function.update (Function.update x.shape d size) d
      (n * Function.update x.shape d size d) = x.shape := by
    rw [Function.update_idem, Function.update_self, ← whole, Function.update_eq_self]
  apply make_eq shape
  intro i inside
  rw [shape] at inside
  have below : i d < n * size := whole ▸ inside d
  have positive : 0 < size := Nat.pos_of_ne_zero (by rintro rfl; simp at below)
  have piece : i d / size < n := Nat.div_lt_of_lt_mul (Nat.mul_comm n size ▸ below)
  have place : Inside (shard d size (i d / size) x).shape (Function.update i d (i d % size)) := by
    rw [shape_shard whole piece]
    exact inside_put (fun k _ => inside k) (Nat.mod_lt _ positive)
  rw [Function.update_self, entry_shard place, Function.update_self, Function.update_idem,
    Nat.div_add_mod', Function.update_eq_self]

theorem tensorSplit_even (positive : 0 < n) (whole : x.shape d = n * size) :
    tensorSplit n d x = (List.range n).map (fun j => shard d size j x) := by
  simp only [tensorSplit, whole, Nat.mul_div_cancel_left size positive, Nat.mul_mod_right,
    Nat.min_zero, Nat.add_zero]
  rfl

theorem split_shards (positive : 0 < size) (some : 0 < n) (whole : x.shape d = n * size) :
    split size d x = .ok ((List.range n).map (fun j => shard d size j x)) := by
  have count : (n * size + size - 1) / size = n := by
    apply Nat.div_eq_of_lt_le
    · omega
    · rw [Nat.succ_mul]
      omega
  rw [split, if_neg (fun empty => Nat.pos_iff_ne_zero.mp positive empty.1),
    if_neg (Nat.pos_iff_ne_zero.mp positive), whole, count, Nat.max_eq_left some]
  rfl

theorem entry_narrow {start stop : Nat} {i : Fin r → Nat}
    (below : i d < min stop (x.shape d) - start) :
    (narrow d start stop x).entry i = x.entry (Function.update i d (start + i d)) := by
  by_cases inside : Inside (Function.update x.shape d (min stop (x.shape d) - start)) i
  · exact entry_make inside
  · rw [outside _ i inside, x.outside]
    intro place
    apply inside
    have put := inside_put (d := d) (fun k _ => place k) below
    rwa [Function.update_idem, Function.update_eq_self] at put

theorem narrow_whole {stop : Nat} (whole : x.shape d ≤ stop) : narrow d 0 stop x = x := by
  apply make_eq
  · rw [Nat.min_eq_right whole, Nat.sub_zero, Function.update_eq_self]
  · intro i _
    rw [Nat.zero_add, Function.update_eq_self]

theorem shard_whole (whole : x.shape d = size) : shard d size 0 x = x := by
  rw [shard, Nat.zero_mul, Nat.zero_add, Nat.one_mul]
  exact narrow_whole (Nat.le_of_eq whole)

theorem narrow_append (x y : Tensor r α) : narrow d 0 (x.shape d) (append d x y) = x := by
  have size : min (x.shape d) (x.shape d + y.shape d) - 0 = x.shape d := by omega
  apply make_eq
  · rw [append, shape_make, Function.update_idem, Function.update_self, size,
      Function.update_eq_self]
  · intro i inside
    rw [append, shape_make, Function.update_idem, Function.update_self, size,
      Function.update_eq_self] at inside
    have below := inside d
    have place : Inside (Function.update x.shape d (x.shape d + y.shape d))
      (Function.update i d (i d)) :=
      inside_put (fun k _ => inside k) (below.trans_le (Nat.le_add_right _ _))
    rw [Nat.zero_add, append, entry_make place, Function.update_eq_self, if_pos below]

theorem narrow_append_of_le (x y : Tensor r α) (start : Nat) {stop : Nat}
    (front : stop ≤ x.shape d) :
    narrow d start stop (append d x y) = narrow d start stop x := by
  have size : min stop (x.shape d + y.shape d) - start = min stop (x.shape d) - start := by omega
  have shapes : Function.update (append d x y).shape d (min stop ((append d x y).shape d) - start) =
      (narrow d start stop x).shape := by
    simp only [append, shape_make, Function.update_self, Function.update_idem, size, narrow]
  apply make_eq shapes
  intro i inside
  have below : i d < min stop (x.shape d) - start := by
    rw [shapes] at inside
    exact inside_self inside
  have early : start + i d < x.shape d := by omega
  have place : Inside (Function.update x.shape d (x.shape d + y.shape d))
      (Function.update i d (start + i d)) := by
    rw [shapes] at inside
    exact inside_put (inside_off inside) (early.trans_le (Nat.le_add_right _ _))
  rw [append, entry_make place, Function.update_self, if_pos early, entry_narrow below]

theorem pads_before (r amount : Nat) (k : Fin (r + 1)) :
    (List.replicate (2 * r) 0 ++ [0, amount]).getD (2 * (r + 1 - 1 - k)) 0 = 0 := by
  rw [List.getD_eq_getElem?_getD, List.getElem?_append, List.length_replicate]
  split
  · rw [List.getElem?_replicate_of_lt ‹_›]
    rfl
  · have first : 2 * (r + 1 - 1 - k.val) - 2 * r = 0 := by omega
    rw [first]
    rfl

theorem pads_behind (r amount : Nat) (k : Fin (r + 1)) :
    (List.replicate (2 * r) 0 ++ [0, amount]).getD (2 * (r + 1 - 1 - k) + 1) 0 =
      if k = firstDim r then amount else 0 := by
  rw [List.getD_eq_getElem?_getD, List.getElem?_append, List.length_replicate]
  by_cases first : k = firstDim r
  · subst first
    have second : 2 * (r + 1 - 1 - (firstDim r).val) + 1 - 2 * r = 1 := by simp [firstDim]
    rw [if_neg (by simp [firstDim]), second, if_pos rfl]
    rfl
  · have other : 0 < k.val := Nat.pos_of_ne_zero (fun zero => first (Fin.ext zero))
    have early : 2 * (r + 1 - 1 - k.val) + 1 < 2 * r := by omega
    rw [if_pos early, List.getElem?_replicate_of_lt early, if_neg first]
    rfl

theorem pad_first {r : Nat} (amount : Nat) (x : Tensor (r + 1) α) :
    pad (List.replicate (2 * r) 0 ++ [0, amount]) 0 x =
      append (firstDim r) x (zeros (Function.update x.shape (firstDim r) amount)) := by
  have shapes : (fun k : Fin (r + 1) => 0 + x.shape k + if k = firstDim r then amount else 0) =
      Function.update x.shape (firstDim r) (x.shape (firstDim r) + amount) := by
    funext k
    by_cases first : k = firstDim r
    · subst first
      simp
    · rw [if_neg first, Function.update_of_ne first]
      omega
  simp only [pad, pads_before, pads_behind, shapes]
  have whole : Function.update x.shape (firstDim r) (x.shape (firstDim r) + amount) =
      (append (firstDim r) x (zeros (Function.update x.shape (firstDim r) amount))).shape := by
    rw [append, zeros, shape_make, shape_make, Function.update_self]
  apply make_eq whole
  intro i inside
  rw [append, entry_make (whole ▸ inside), entry_zeros]
  by_cases front : i (firstDim r) < x.shape (firstDim r)
  · have within : ∀ k, 0 ≤ i k ∧ i k < 0 + x.shape k := by
      intro k
      by_cases first : k = firstDim r
      · subst first
        omega
      · have off := inside_off inside k first
        omega
    rw [if_pos within, if_pos front]
    rfl
  · have without : ¬∀ k, 0 ≤ i k ∧ i k < 0 + x.shape k := by
      intro within
      have bound := (within (firstDim r)).2
      omega
    rw [if_neg without, if_neg front]

theorem narrow_shard (whole : x.shape d = n * size) {j h : Nat} (below : j < n)
    (inside : h < size) :
    narrow d h (h + 1) (shard d size j x) = narrow d (j * size + h) (j * size + h + 1) x := by
  have room : (j + 1) * size ≤ n * size := Nat.mul_le_mul_right _ below
  rw [Nat.succ_mul] at room
  have left : min (h + 1) size - h = 1 := by omega
  have right : min (j * size + h + 1) (n * size) - (j * size + h) = 1 := by omega
  have shapes : Function.update (shard d size j x).shape d
    (min (h + 1) ((shard d size j x).shape d) - h) =
      (narrow d (j * size + h) (j * size + h + 1) x).shape := by
    rw [shape_shard whole below, Function.update_self, Function.update_idem, left, narrow,
      shape_make, whole, right]
  apply make_eq shapes
  intro i place
  have single : i d < 1 := by
    rw [shape_shard whole below, Function.update_self, left] at place
    exact inside_self place
  have entry : (Function.update i d (h + i d)) d < min ((j + 1) * size) (x.shape d) - j * size := by
    rw [Function.update_self, whole, Nat.succ_mul]
    omega
  rw [shard, entry_narrow entry, entry_narrow (by rw [whole, right]; exact single),
    Function.update_self, Function.update_idem, Nat.add_assoc]

/-- Tensors with one shape and the same entries at each place of a dimension. -/
theorem eq_of_narrow {y : Tensor r α} (shapes : x.shape = y.shape)
    (each : ∀ h < x.shape d, narrow d h (h + 1) x = narrow d h (h + 1) y) : x = y := by
  apply eq_of_entries shapes
  intro i inside
  have below := inside d
  have single : ∀ z : Tensor r α, i d < z.shape d →
      (narrow d (i d) (i d + 1) z).entry (Function.update i d 0) = z.entry i := by
    intro z room
    have first : (Function.update i d 0) d < min (i d + 1) (z.shape d) - i d := by
      rw [Function.update_self]
      omega
    rw [entry_narrow first, Function.update_self, Nat.add_zero, Function.update_idem,
      Function.update_eq_self]
  rw [← single x below, each (i d) below, single y (shapes ▸ below)]

theorem split_empty (empty : x.shape d = 0) : split 0 d x = .ok [x] := by
  have whole : narrow d (0 * 0) ((0 + 1) * 0) x = x := narrow_whole (Nat.le_of_eq empty)
  rw [split, if_neg (by simp [empty]), if_pos rfl]
  simp only [List.range_one, List.map_singleton, whole]

end Shards

section TwoDimensions

variable {d e : Fin r} {x : Tensor r α}

theorem shape_narrow_of_ne (other : e ≠ d) (start stop : Nat) :
    (narrow d start stop x).shape e = x.shape e :=
  Function.update_of_ne other _ _

theorem shape_shard_of_ne (other : e ≠ d) (size j : Nat) : (shard d size j x).shape e = x.shape e :=
  shape_narrow_of_ne other _ _

theorem shape_narrow (start stop : Nat) :
    (narrow d start stop x).shape = Function.update x.shape d (min stop (x.shape d) - start) := rfl

theorem shape_append (x y : Tensor r α) :
    (append d x y).shape = Function.update x.shape d (x.shape d + y.shape d) := rfl

theorem entry_append {x y : Tensor r α} {i : Fin r → Nat} (inside : Inside (append d x y).shape i) :
    (append d x y).entry i = if i d < x.shape d then x.entry i
      else y.entry (Function.update i d (i d - x.shape d)) :=
  entry_make inside

theorem narrow_comm (other : d ≠ e) (start stop first last : Nat) :
    narrow d start stop (narrow e first last x) = narrow e first last (narrow d start stop x) := by
  have sizeD := shape_narrow_of_ne (x := x) other first last
  have sizeE := shape_narrow_of_ne (x := x) (Ne.symm other) start stop
  apply make_eq
  · rw [sizeD, shape_narrow, shape_narrow, sizeE, shape_narrow]
    exact Function.update_comm (Ne.symm other) _ _ _
  · intro i inside
    have belowD : i d < min stop (x.shape d) - start := sizeD ▸ inside_self inside
    have belowE : i e < min last (x.shape e) - first := by
      have bound := inside_off inside e (Ne.symm other)
      rw [narrow, shape_make, Function.update_self] at bound
      exact bound
    have inner : (Function.update i d (start + i d)) e = i e :=
      Function.update_of_ne (Ne.symm other) _ _
    have outer : (Function.update i e (first + i e)) d = i d := Function.update_of_ne other _ _
    rw [entry_narrow (inner.symm ▸ belowE), entry_narrow (sizeE.symm ▸ belowE),
      entry_narrow (outer.symm ▸ belowD), inner, outer, Function.update_comm other]

theorem shard_comm (other : d ≠ e) (size j length k : Nat) :
    shard d size j (shard e length k x) = shard e length k (shard d size j x) :=
  narrow_comm other _ _ _ _

theorem narrow_append_of_ne (other : d ≠ e) (x y : Tensor r α) (same : x.shape d = y.shape d)
    (start stop : Nat) :
    narrow d start stop (append e x y) =
      append e (narrow d start stop x) (narrow d start stop y) := by
  have whole : (append e x y).shape d = x.shape d := Function.update_of_ne other _ _
  have sizeX := shape_narrow_of_ne (x := x) (Ne.symm other) start stop
  have sizeY := shape_narrow_of_ne (x := y) (Ne.symm other) start stop
  have shapes : Function.update (append e x y).shape d (min stop ((append e x y).shape d) - start) =
      (append e (narrow d start stop x) (narrow d start stop y)).shape := by
    rw [whole, shape_append, shape_append, sizeX, sizeY, shape_narrow]
    exact Function.update_comm (Ne.symm other) _ _ _
  apply make_eq shapes
  intro i inside
  have below : i d < min stop (x.shape d) - start := whole ▸ inside_self inside
  have away : (Function.update i d (start + i d)) e = i e :=
    Function.update_of_ne (Ne.symm other) _ _
  have place : Inside (append e x y).shape (Function.update i d (start + i d)) := by
    have put : Inside (Function.update (append e x y).shape d (x.shape d))
      (Function.update i d (start + i d)) :=
      inside_put (inside_off inside) (by omega)
    rwa [← whole, Function.update_eq_self] at put
  rw [entry_append place, entry_append (shapes ▸ inside), sizeX, away]
  split
  · rw [entry_narrow below]
  · have behind : (Function.update i e (i e - x.shape e)) d = i d := Function.update_of_ne other _ _
    rw [entry_narrow (by rw [behind, ← same]; exact below), behind, Function.update_comm other]

end TwoDimensions

end Tensor

end Verl
