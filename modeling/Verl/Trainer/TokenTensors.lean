import Mathlib.Algebra.BigOperators.Group.List.Basic
import Mathlib.Algebra.CharZero.Defs
import Mathlib.Algebra.Field.Basic
import Mathlib.Algebra.GroupWithZero.Nat
import Mathlib.Data.List.GetD
import Verl.Base.Python

/-! Tensors of shape `(bs, response_length)` as lists of rows, and the masked statistics of
`verl/utils/torch_functional.py` over an exact field. `torch.rsqrt` is a parameter. -/
namespace Verl.Trainer

section Tensors

variable {K : Type}

def HasShape (bs len : Nat) (x : List (List K)) : Prop :=
  x.length = bs ∧ ∀ row ∈ x, row.length = len

def elementwise (f : K → K → K) (a b : List (List K)) : List (List K) :=
  List.zipWith (List.zipWith f) a b

def rowAt (x : List (List K)) (i : Nat) : List K := x.getD i []

def oneAt {α : Type} (len position : Nat) (rest value : α) : List α :=
  (List.replicate len rest).set position value

def entry [Zero K] (x : List (List K)) (i t : Nat) : K := (rowAt x i).getD t 0

theorem rowAt_eq {x : List (List K)} {i : Nat} (inside : i < x.length) : rowAt x i = x[i] :=
  List.getD_eq_getElem x [] inside

section Marked

variable {α β γ : Type} {len position : Nat}

@[simp] theorem length_oneAt (len position : Nat) (rest value : α) :
    (oneAt len position rest value).length = len := by
  simp [oneAt]

theorem getD_oneAt [Zero K] (len position : Nat) (value : K) (t : Nat) :
    (oneAt len position 0 value).getD t 0 = if t = position ∧ position < len then value else 0 := by
  unfold oneAt
  rw [List.getD_eq_getElem?_getD, List.getElem?_set]
  by_cases here : position = t
  · by_cases inside : t < len <;> simp [here, inside]
  · rw [if_neg here, if_neg (fun both => here both.1.symm), List.getElem?_getD_replicate_default_eq]

theorem oneAt_eq_append (inside : position < len) (rest value : α) :
    oneAt len position rest value = List.replicate position rest ++
      value :: List.replicate (len - position - 1) rest := by
  have count : len = position + (len - position - 1 + 1) := by omega
  unfold oneAt
  conv => lhs; rw [count, List.replicate_add, List.replicate_succ,
    List.set_append_right _ _ (by simp)]
  simp

theorem zipWith_oneAt (f : α → β → γ) (len position : Nat) (a b : α) (c d : β) :
    List.zipWith f (oneAt len position a b) (oneAt len position c d) =
      oneAt len position (f a c) (f b d) := by
  apply List.ext_getElem
  · simp
  · intro t _ _
    simp only [oneAt, List.getElem_zipWith, List.getElem_set, List.getElem_replicate]
    split <;> rfl

end Marked

variable {bs len : Nat}

theorem length_rowAt {x : List (List K)} (shape : HasShape bs len x) {i : Nat} (inside : i < bs) :
    (rowAt x i).length = len := by
  have below : i < x.length := shape.1.symm ▸ inside
  rw [rowAt_eq below]
  exact shape.2 _ (List.getElem_mem below)

theorem HasShape.same_lengths {x y : List (List K)} (left : HasShape bs len x)
    (right : HasShape bs len y) :
    x.map List.length = y.map List.length := by
  rw [List.map_eq_replicate_iff.mpr left.2, List.map_eq_replicate_iff.mpr right.2, left.1, right.1]

theorem hasShape_zipWith {α β : Type} {f : α → β → List K} {x : List α} {y : List β}
    (rows : x.length = bs) (same : y.length = bs)
    (lengths : ∀ a ∈ x, ∀ b ∈ y, (f a b).length = len) : HasShape bs len (List.zipWith f x y) := by
  constructor
  · rw [List.length_zipWith, rows, same, Nat.min_self]
  · intro row member
    obtain ⟨i, inside, rfl⟩ := List.getElem_of_mem member
    rw [List.length_zipWith] at inside
    rw [List.getElem_zipWith]
    exact lengths _ (List.getElem_mem (by omega)) _ (List.getElem_mem (by omega))

theorem rowAt_zipWith {α β : Type} (f : α → β → List K) {x : List α} {y : List β}
    (rows : x.length = bs) (same : y.length = bs) {i : Nat} (inside : i < bs) (a : α) (b : β) :
    rowAt (List.zipWith f x y) i = f (x.getD i a) (y.getD i b) := by
  have both : i < (List.zipWith f x y).length := by
    rw [List.length_zipWith]
    omega
  rw [rowAt_eq both, List.getD_eq_getElem _ _ (by omega), List.getD_eq_getElem _ _ (by omega),
    List.getElem_zipWith]

theorem hasShape_map {α : Type} {rows : List α} {f : α → List K}
    (lengths : ∀ row, (f row).length = len) :
    HasShape rows.length len (rows.map f) := by
  constructor
  · rw [List.length_map]
  · intro row member
    obtain ⟨source, -, rfl⟩ := List.mem_map.mp member
    exact lengths source

theorem rowAt_map {α : Type} (f : α → List K) {rows : List α} {i : Nat} (inside : i < rows.length)
    (default : α) :
    rowAt (rows.map f) i = f (rows.getD i default) := by
  rw [rowAt_eq (by rwa [List.length_map]), List.getD_eq_getElem _ _ inside, List.getElem_map]

theorem hasShape_elementwise (f : K → K → K) {x y : List (List K)} (left : HasShape bs len x)
    (right : HasShape bs len y) :
    HasShape bs len (elementwise f x y) := by
  apply hasShape_zipWith left.1 right.1
  intro a inLeft b inRight
  rw [List.length_zipWith, left.2 a inLeft, right.2 b inRight, Nat.min_self]

theorem entry_elementwise [Zero K] (f : K → K → K) {x y : List (List K)} (left : HasShape bs len x)
    (right : HasShape bs len y) {i t : Nat} (row : i < bs) (column : t < len) :
    entry (elementwise f x y) i t = f (entry x i t) (entry y i t) := by
  have a := length_rowAt left row
  have b := length_rowAt right row
  unfold entry elementwise
  rw [rowAt_zipWith _ left.1 right.1 row [] [], ← rowAt, ← rowAt,
    List.getD_eq_getElem _ _ (by rw [List.length_zipWith]; omega),
    List.getD_eq_getElem _ _ (by omega), List.getD_eq_getElem _ _ (by omega), List.getElem_zipWith]

theorem hasShape_mapEntries (f : K → K) {x : List (List K)} (shape : HasShape bs len x) :
    HasShape bs len (x.map (fun row => row.map f)) := by
  constructor
  · rw [List.length_map, shape.1]
  · intro row member
    obtain ⟨source, inside, rfl⟩ := List.mem_map.mp member
    rw [List.length_map, shape.2 source inside]

theorem entry_mapEntries [Zero K] (f : K → K) {x : List (List K)} (shape : HasShape bs len x)
    {i t : Nat} (row : i < bs)
    (column : t < len) : entry (x.map (fun row => row.map f)) i t = f (entry x i t) := by
  have width := length_rowAt shape row
  unfold entry
  rw [rowAt_map _ (shape.1.symm ▸ row) [], ← rowAt,
    List.getD_eq_getElem _ _ (by rw [List.length_map]; omega), List.getD_eq_getElem _ _ (by omega),
    List.getElem_map]

end Tensors

section Statistics

variable {K : Type} [Field K]

def sumAll (x : List (List K)) : K := (x.map List.sum).sum

def maskedMean (values mask : List (List K)) : K :=
  sumAll (elementwise (· * ·) values mask) / sumAll mask

def maskedVar [DecidableEq K] (values mask : List (List K)) : Py K :=
  let mean := maskedMean values mask
  let centeredValues := values.map (fun row => row.map (· - mean))
  let variance := maskedMean (centeredValues.map (fun row => row.map (· ^ 2))) mask
  let maskSum := sumAll mask
  if maskSum = 0 then .error (.value "At least one element in the mask has to be 1.")
  else if maskSum = 1 then
    .error (.value "The sum of the mask is one, which can cause a division by zero.")
  else .ok (variance * (maskSum / (maskSum - 1)))

def maskedWhiten [DecidableEq K] (rsqrt : K → K) (values mask : List (List K)) :
    Py (List (List K)) := do
  let mean := maskedMean values mask
  let var ← maskedVar values mask
  return values.map (fun row => row.map (fun value => (value - mean) * rsqrt (var + 1 / 10 ^ 8)))

end Statistics

section Masks

variable {K : Type} [Field K]

def responseMask (len : Nat) (valid : List Nat) : List (List K) :=
  valid.map (fun count => List.replicate count 1 ++ List.replicate (len - count) 0)

def AgreeOn (mask x y : List (List K)) : Prop :=
  ∀ i t, entry mask i t = 1 → entry x i t = entry y i t

theorem hasShape_responseMask {len : Nat} {valid : List Nat} (fits : ∀ count ∈ valid, count ≤ len) :
    HasShape valid.length len (responseMask len valid : List (List K)) := by
  constructor
  · simp [responseMask]
  · intro row member
    obtain ⟨count, inside, rfl⟩ := List.mem_map.mp member
    have short := fits count inside
    simp only [List.length_append, List.length_replicate]
    omega

theorem rowAt_responseMask (len : Nat) (valid : List Nat) (i : Nat) : ∃ rest,
    rowAt (responseMask len valid : List (List K)) i = List.replicate (valid.getD i 0) 1 ++
      List.replicate rest 0 := by
  by_cases inside : i < valid.length
  · exists len - valid[i]
    rw [rowAt_eq (by simpa [responseMask] using inside), List.getD_eq_getElem _ _ inside]
    simp [responseMask]
  · exists 0
    rw [rowAt, List.getD_eq_default _ _ (by simpa [responseMask] using inside),
      List.getD_eq_default _ _ (Nat.le_of_not_lt inside)]
    simp

theorem entry_responseMask (len : Nat) (valid : List Nat) (i t : Nat) :
    entry (responseMask len valid : List (List K)) i t = if t < valid.getD i 0 then 1 else 0 := by
  obtain ⟨rest, row⟩ := rowAt_responseMask (K := K) len valid i
  rw [entry, row]
  by_cases below : t < valid.getD i 0
  · rw [if_pos below, List.getD_append _ _ _ _ (by rwa [List.length_replicate]),
      List.getD_replicate _ below]
  · rw [if_neg below, List.getD_append_right _ _ _ _ (by rw [List.length_replicate]; omega),
      List.getD_eq_getElem?_getD, List.getElem?_getD_replicate_default_eq]

theorem agreeOn_responseMask_iff {len : Nat} {valid : List Nat} {x y : List (List K)} :
    AgreeOn (responseMask len valid) x y ↔
      ∀ i t, t < valid.getD i 0 → entry x i t = entry y i t := by
  unfold AgreeOn
  constructor
  · intro agree i t below
    apply agree
    rw [entry_responseMask, if_pos below]
  · intro agree i t marked
    apply agree
    by_contra past
    rw [entry_responseMask, if_neg past] at marked
    exact zero_ne_one marked

theorem sumAll_responseMask (len : Nat) (valid : List Nat) :
    sumAll (responseMask len valid : List (List K)) = (valid.sum : K) := by
  induction valid with
  | nil => simp [sumAll, responseMask]
  | cons count valid ih =>
    rw [sumAll, responseMask] at *
    rw [List.map_cons, List.map_cons, List.sum_cons, ih]
    simp

theorem maskedWhiten_responseMask_iff [DecidableEq K] [CharZero K] {rsqrt : K → K}
    {values : List (List K)} {len : Nat} {valid : List Nat} :
    (∃ whitened, maskedWhiten rsqrt values (responseMask len valid) = .ok whitened) ↔
      2 ≤ valid.sum := by
  have some : (valid.sum : K) = 0 ↔ valid.sum = 0 := Nat.cast_eq_zero
  have more : (valid.sum : K) = 1 ↔ valid.sum = 1 := Nat.cast_eq_one
  constructor
  · rintro ⟨whitened, run⟩
    obtain ⟨var, spread, -⟩ := bind_ok_iff.mp run
    rw [maskedVar, sumAll_responseMask] at spread
    split at spread
    · cases spread
    · split at spread
      · cases spread
      · grind
  · intro many
    have spread : ∃ var, maskedVar values (responseMask len valid) = .ok var := by
      rw [maskedVar, sumAll_responseMask]
      exact ⟨_, by rw [if_neg (by grind), if_neg (by grind)]⟩
    obtain ⟨var, spread⟩ := spread
    exact ⟨_, bind_ok_iff.mpr ⟨var, spread, rfl⟩⟩

theorem inside_of_valid {valid : List Nat} {i t : Nat} (below : t < valid.getD i 0) :
    i < valid.length := by
  by_contra past
  rw [List.getD_eq_default _ _ (Nat.le_of_not_lt past)] at below
  cases below

theorem valid_inside {len : Nat} {valid : List Nat}
    (fits : ∀ count ∈ valid, count ≤ len) {i t : Nat}
    (here : t < valid.getD i 0) : i < valid.length ∧ valid.getD i 0 ≤ len ∧ t < len := by
  have row := inside_of_valid here
  have short : valid.getD i 0 ≤ len := by
    rw [List.getD_eq_getElem _ _ row]
    exact fits _ (List.getElem_mem row)
  exact ⟨row, short, Nat.lt_of_lt_of_le here short⟩

end Masks

end Verl.Trainer
