import Verl.Base.Bounds
import Verl.Protocol.Operations
import Verl.Protocol.Rows

/-! `pad_dataproto_to_divisor` and `unpad_dataproto`. The padding takes prefixes of the data until
it is long enough, so that row `i` of the padded data is row `i` modulo the length. -/
namespace Verl.Protocol

theorem pySlice_take {take n : Nat} (inside : take ≤ n) :
    pySlice none (some take) none n = .ok (List.range take) := by
  simp [pySlice, Nat.min_eq_left inside, List.range_eq_range']

theorem pySlice_drop {drop n : Nat} (positive : 0 < drop) :
    pySlice none (some (-drop)) none n = .ok (List.range (n - drop)) := by
  have size : (-(drop : Int) + n).toNat = n - drop := by omega
  simp [pySlice, positive, size, List.range_eq_range']

section Cycle

def cycleIdx (n m : Nat) : List Nat := (List.range m).map (· % n)

variable {n m : Nat}

theorem cycleIdx_inside (positive : 0 < n) : ∀ i ∈ cycleIdx n m, i < n := by
  intro i member
  obtain ⟨j, -, rfl⟩ := List.mem_map.mp member
  exact Nat.mod_lt j positive

theorem length_cycleIdx : (cycleIdx n m).length = m := by simp [cycleIdx]

theorem cycleIdx_of_le (short : m ≤ n) : cycleIdx n m = List.range m := by
  have each : ∀ i ∈ List.range m, i % n = i :=
    fun i member => Nat.mod_eq_of_lt (Nat.lt_of_lt_of_le (List.mem_range.mp member) short)
  exact (List.map_congr_left each).trans (List.map_id _)

theorem range_append_cycleIdx : List.range n ++ cycleIdx n m = cycleIdx n (n + m) := by
  have start : (List.range n).map (· % n) = List.range n := cycleIdx_of_le (Nat.le_refl n)
  simp [cycleIdx, List.range_add, start, Function.comp_def]

theorem pick_cycleIdx : pick (cycleIdx n (n + m)) (List.range n) = List.range n := by
  have start : List.range n = List.range' 0 n := List.range_eq_range'
  have cut := slice_eq_pick 0 n (cycleIdx n (n + m))
  rw [← range_append_cycleIdx] at cut ⊢
  simpa [slice, start] using cut.symm

end Cycle

namespace DataProto

variable {τ ω μ : Type}

/-- The loop of `pad_dataproto_to_divisor`; without fuel it is still running. -/
def padLoop (data : DataProto τ ω μ) :
    Nat → Nat → List (DataProto τ ω μ) → Option (Py (List (DataProto τ ω μ)))
  | 0, _, _ => none
  | fuel + 1, remainingPad, paddingProtos =>
    if remainingPad > 0 then
      let takeSize := min remainingPad data.len
      match data.getSlice none (some takeSize) none with
      | .error e => some (.error e)
      | .ok piece => padLoop data fuel (remainingPad - takeSize) (paddingProtos ++ [piece])
    else some (.ok paddingProtos)

def padDataprotoToDivisor (fuel : Nat) (data : DataProto τ ω μ) (sizeDivisor : Nat) :
    Option (Py (DataProto τ ω μ × Nat)) :=
  match pyMod data.len sizeDivisor with
  | .error e => some (.error e)
  | .ok remainder =>
    if remainder ≠ 0 then
      let padSize := sizeDivisor - remainder
      (padLoop data fuel padSize []).map (fun loop => do
        let paddingProtos ← loop
        let dataPadded ← concat (data :: paddingProtos)
        return (dataPadded, padSize))
    else some (.ok (data, 0))

def unpadDataproto (data : DataProto τ ω μ) (padSize : Nat) : Py (DataProto τ ω μ) :=
  if padSize ≠ 0 then data.getSlice none (some (-padSize)) none else .ok data

variable {d : DataProto τ ω μ} {n : Nat}

theorem getSlice_none {start stop step : Option Int} (without : d.batch = none) :
    ∃ e, d.getSlice start stop step = .error e := by
  unfold getSlice
  rw [without]
  exact ⟨_, rfl⟩

theorem getSlice_eq {start stop step : Option Int} (aligned : d.Aligned n)
    (tensors : d.batch.isSome = true) {idx : List Nat}
    (item : pySlice start stop step n = .ok idx) (inside : ∀ i ∈ idx, i < n) :
    d.getSlice start stop step = .ok (d.pickRows idx) := by
  obtain ⟨batch, present⟩ := Option.isSome_iff_exists.mp tensors
  have columns : d.nonTensorBatch.mapKVM (fun _ val => do
      let item ← pySlice start stop step val.rows.length
      return val.pickRows item) = .ok (d.nonTensorBatch.mapKV (fun _ val => val.pickRows idx)) := by
    apply Dict.mapKVM_ok
    intro e member
    rw [aligned.nonTensorBatch e member, item]
    rfl
  simp only [getSlice, present, aligned.batch batch present, item, ok_bind, columns]
  have rows := aligned.pickRows inside
  rw [pickRows, present] at rows
  rw [pickRows, present]
  exact new_ok rows

/-- The loop ends, since every piece but the last is as long as the data. -/
theorem padLoop_eq (aligned : d.Aligned n) (tensors : d.batch.isSome = true) (len : d.len = n)
    (positive : 0 < n) (remainingPad : Nat) (paddingProtos : List (DataProto τ ω μ)) {fuel : Nat}
    (enough : remainingPad < fuel) :
    ∃ idxs : List (List Nat), (∀ idx ∈ idxs, ∀ i ∈ idx, i < n) ∧
      idxs.flatten = cycleIdx n remainingPad ∧
      padLoop d fuel remainingPad paddingProtos =
        some (.ok (paddingProtos ++ idxs.map (fun idx => d.pickRows idx))) := by
  induction fuel generalizing remainingPad paddingProtos with
  | zero => exact absurd enough (Nat.not_lt_zero _)
  | succ fuel ih =>
    by_cases some_left : remainingPad > 0
    · have short : min remainingPad n ≤ n := Nat.min_le_right _ _
      have inside : ∀ i ∈ List.range (min remainingPad n), i < n := by
        intro i member
        exact Nat.lt_of_lt_of_le (List.mem_range.mp member) short
      have piece := getSlice_eq aligned tensors (pySlice_take short) inside
      obtain ⟨idxs, insides, flat, run⟩ :=
        ih (remainingPad - min remainingPad n)
          (paddingProtos ++ [d.pickRows (List.range (min remainingPad n))]) (by omega)
      refine ⟨List.range (min remainingPad n) :: idxs,
        List.forall_mem_cons.mpr ⟨inside, insides⟩, ?_, ?_⟩
      · rw [List.flatten_cons, flat]
        rcases Nat.le_total remainingPad n with last | more
        · rw [Nat.min_eq_left last, Nat.sub_self, cycleIdx_of_le last]
          simp [cycleIdx]
        · rw [Nat.min_eq_right more, range_append_cycleIdx, Nat.add_sub_cancel' more]
      · simp only [padLoop, if_pos some_left, len, piece, run, List.map_cons]
        simp
    · have done : remainingPad = 0 := Nat.eq_zero_of_not_pos some_left
      subst done
      exact ⟨[], by simp, rfl, by simp [padLoop]⟩

def PadReturns (d : DataProto τ ω μ) (sizeDivisor : Nat) (result : DataProto τ ω μ × Nat) : Prop :=
  ∃ enough, ∀ fuel, enough ≤ fuel → padDataprotoToDivisor fuel d sizeDivisor = some (.ok result)

theorem PadReturns.unique {sizeDivisor : Nat} {a b : DataProto τ ω μ × Nat}
    (first : PadReturns d sizeDivisor a) (second : PadReturns d sizeDivisor b) : a = b := by
  obtain ⟨f, hf⟩ := first
  obtain ⟨g, hg⟩ := second
  have same := (hf (max f g) (Nat.le_max_left f g)).symm.trans (hg (max f g) (Nat.le_max_right f g))
  cases same
  rfl

theorem padReturns_of_dvd {sizeDivisor : Nat} (positive : 0 < sizeDivisor)
    (even : sizeDivisor ∣ d.len) :
    PadReturns d sizeDivisor (d, 0) := by
  refine ⟨0, fun fuel _ => ?_⟩
  simp [padDataprotoToDivisor, pyMod_pos positive, Nat.mod_eq_zero_of_dvd even]

theorem padReturns_of_batch (aligned : d.Aligned d.len) (tensors : d.batch.isSome = true)
    {sizeDivisor : Nat}
    (positive : 0 < sizeDivisor) (odd : ¬sizeDivisor ∣ d.len) : PadReturns d sizeDivisor
      (d.pickRows (cycleIdx d.len (d.len + (sizeDivisor - d.len % sizeDivisor))),
        sizeDivisor - d.len % sizeDivisor) := by
  have remainder : d.len % sizeDivisor ≠ 0 := fun zero => odd (Nat.dvd_of_mod_eq_zero zero)
  have rows : 0 < d.len := by
    rw [Nat.pos_iff_ne_zero]
    intro zero
    rw [zero] at odd
    exact odd (Nat.dvd_zero sizeDivisor)
  refine ⟨sizeDivisor - d.len % sizeDivisor + 1, fun fuel enough => ?_⟩
  obtain ⟨idxs, insides, flat, run⟩ :=
    padLoop_eq aligned tensors rfl rows (sizeDivisor - d.len % sizeDivisor) [] enough
  have whole := pickRows_range aligned
  have joined : concat (d :: idxs.map (fun idx => d.pickRows idx)) =
      .ok (d.pickRows (cycleIdx d.len (d.len + (sizeDivisor - d.len % sizeDivisor)))) := by
    have same : List.Forall₂ SameColumns (d :: idxs.map (fun idx => d.pickRows idx))
        ((List.range d.len :: idxs).map (fun idx => d.pickRows idx)) := by
      rw [List.map_cons, whole]
      exact List.forall₂_same.mpr (fun x _ => ⟨rfl, rfl⟩)
    rw [concat_pickRows aligned (List.forall_mem_cons.mpr ⟨fun i => List.mem_range.mp, insides⟩)
      same, List.flatten_cons, flat, range_append_cycleIdx]
    rfl
  simp [padDataprotoToDivisor, pyMod_pos positive, remainder, run, joined]

theorem not_padReturns {sizeDivisor : Nat} (positive : 0 < sizeDivisor) (odd : ¬sizeDivisor ∣ d.len)
    (without : d.batch = none)
    (result : DataProto τ ω μ × Nat) : ¬PadReturns d sizeDivisor result := by
  rintro ⟨enough, run⟩
  have remainder : d.len % sizeDivisor ≠ 0 := fun zero => odd (Nat.dvd_of_mod_eq_zero zero)
  have some_left : sizeDivisor - d.len % sizeDivisor > 0 :=
    Nat.sub_pos_of_lt (Nat.mod_lt _ positive)
  have first := run (enough + 1) (Nat.le_succ enough)
  have piece : ∃ e, d.getSlice none (some (min (sizeDivisor - d.len % sizeDivisor) d.len : Nat))
    none = .error e := getSlice_none without
  obtain ⟨e, failed⟩ := piece
  simp only [padDataprotoToDivisor, pyMod_pos positive, ne_eq, remainder, not_false_eq_true,
    if_true, padLoop, if_pos some_left, failed] at first
  cases first

variable {τ' ω' μ' : Type}

/-- A function of the rows: it keeps their number, and selecting rows before or after it is the
same. -/
structure RowWise (f : DataProto τ ω μ → DataProto τ' ω' μ') : Prop where
  aligned : ∀ {n d}, d.Aligned n → (f d).Aligned n
  pickRows : ∀ {n d idx}, d.Aligned n → (∀ i ∈ idx, i < n) → f (d.pickRows idx) = (f d).pickRows idx

theorem unpadDataproto_eq {f : DataProto τ ω μ → DataProto τ' ω' μ'} (rowWise : RowWise f)
    (aligned : d.Aligned n) (tensors : (f d).batch.isSome = true) (positive : 0 < n) {padSize : Nat}
    (padded : 0 < padSize) :
    unpadDataproto (f (d.pickRows (cycleIdx n (n + padSize)))) padSize = .ok (f d) := by
  have inside : ∀ i ∈ cycleIdx n (n + padSize), i < n := cycleIdx_inside positive
  have made := rowWise.aligned aligned
  have rows := made.pickRows inside
  rw [length_cycleIdx] at rows
  have present : ((f d).pickRows (cycleIdx n (n + padSize))).batch.isSome = true := by
    simpa [pickRows] using tensors
  have item : pySlice none (some (-padSize)) none (n + padSize) = .ok (List.range n) := by
    rw [pySlice_drop padded, Nat.add_sub_cancel]
  have start : ∀ i ∈ List.range n, i < n + padSize := by
    intro i member
    exact Nat.lt_of_lt_of_le (List.mem_range.mp member) (Nat.le_add_right n padSize)
  rw [rowWise.pickRows aligned inside, unpadDataproto, if_pos (Nat.ne_of_gt padded),
    getSlice_eq rows present item start, pickRows_pickRows made inside, pick_cycleIdx,
    pickRows_range made]

theorem unpadDataproto_none {padSize : Nat} (padded : 0 < padSize) (without : d.batch = none) :
    ∃ e, unpadDataproto d padSize = .error e := by
  rw [unpadDataproto, if_pos (Nat.ne_of_gt padded)]
  exact getSlice_none without

/-- Padding and unpadding keep what a function of the rows computes, unless rows have to be taken
from data without tensors, or dropped from a result without tensors. -/
theorem pad_unpad_iff {f : DataProto τ ω μ → DataProto τ' ω' μ'} (rowWise : RowWise f)
    (aligned : d.Aligned d.len) {sizeDivisor : Nat} (positive : 0 < sizeDivisor) :
    (∃ padded padSize, PadReturns d sizeDivisor (padded, padSize) ∧
      IsLeast {m | sizeDivisor ∣ m ∧ d.len ≤ m} padded.len ∧
      padded.Aligned padded.len ∧ padded.pickRows (List.range d.len) = d ∧
        unpadDataproto (f padded) padSize = .ok (f d)) ↔
    sizeDivisor ∣ d.len ∨ (d.batch.isSome = true ∧ (f d).batch.isSome = true) := by
  by_cases even : sizeDivisor ∣ d.len
  · simp only [even, true_or, iff_true]
    exact ⟨d, 0, padReturns_of_dvd positive even,
      ⟨⟨even, Nat.le_refl _⟩, fun m multiple => multiple.2⟩, aligned, pickRows_range aligned, rfl⟩
  · simp only [even, false_or]
    have rows : 0 < d.len := by
      rw [Nat.pos_iff_ne_zero]
      intro zero
      rw [zero] at even
      exact even (Nat.dvd_zero sizeDivisor)
    have padded : 0 < sizeDivisor - d.len % sizeDivisor := Nat.sub_pos_of_lt (Nat.mod_lt _ positive)
    constructor
    · rintro ⟨data, padSize, returned, -, -, -, unpadded⟩
      have tensors : d.batch.isSome = true := by
        rw [Option.isSome_iff_ne_none]
        exact fun without => not_padReturns positive even without _ returned
      refine ⟨tensors, ?_⟩
      rw [Option.isSome_iff_ne_none]
      intro without
      cases returned.unique (padReturns_of_batch aligned tensors positive even)
      have inside : ∀ i ∈ cycleIdx d.len (d.len + (sizeDivisor - d.len % sizeDivisor)), i < d.len :=
        cycleIdx_inside rows
      have none : (f (d.pickRows
          (cycleIdx d.len (d.len + (sizeDivisor - d.len % sizeDivisor))))).batch = none := by
        rw [rowWise.pickRows aligned inside, pickRows, without]
        rfl
      obtain ⟨e, failed⟩ := unpadDataproto_none padded none
      cases failed.symm.trans unpadded
    · rintro ⟨tensors, made⟩
      have inside : ∀ i ∈ cycleIdx d.len (d.len + (sizeDivisor - d.len % sizeDivisor)), i < d.len :=
        cycleIdx_inside rows
      obtain ⟨td, present⟩ := Option.isSome_iff_exists.mp tensors
      have len := len_pickRows present aligned inside
      rw [length_cycleIdx] at len
      refine ⟨_, _, padReturns_of_batch aligned tensors positive even, ?_, ?_, ?_,
        unpadDataproto_eq rowWise aligned made rows padded⟩
      · rw [len]
        exact isLeast_padded positive even
      · have own := aligned.pickRows inside
        rw [length_cycleIdx] at own
        rwa [len]
      · rw [pickRows_pickRows aligned inside, pick_cycleIdx, pickRows_range aligned]

section Labels

/-- Three rows with tensors, and the same labels without. -/
def observations (batch : Option (TensorDict Nat)) : DataProto Nat Nat Nat :=
  ⟨batch, ⟨[("labels", ⟨[], [5, 6, 7]⟩)], by simp⟩, .empty⟩

def obs : TensorDict Nat := ⟨3, ⟨[("obs", ⟨[], [1, 2, 3]⟩)], by simp⟩, by simp⟩

def dropColumns (d : DataProto Nat Nat Nat) : DataProto Nat Nat Nat :=
  { d with nonTensorBatch := .empty }

theorem rowWise_dropColumns : RowWise dropColumns where
  aligned aligned := ⟨aligned.batch, by simp [dropColumns, Dict.empty]⟩
  pickRows _ _ := rfl

theorem aligned_observations {batch : Option (TensorDict Nat)}
    (size : ∀ td, batch = some td → td.batchSize = 3) : (observations batch).Aligned 3 :=
  ⟨size, by simp [observations]⟩

/-- Three rows become seven, which is more than twice as many. -/
theorem pad_unpad_seven :
    ∃ padded padSize, PadReturns (observations (some obs)) 7 (padded, padSize) ∧ padded.len = 7 ∧
    unpadDataproto (dropColumns padded) padSize = .ok (dropColumns (observations (some obs))) := by
  have size : ∀ td, some obs = some td → td.batchSize = 3 := by
    rintro td ⟨⟩
    rfl
  have aligned : (observations (some obs)).Aligned (observations (some obs)).len :=
    aligned_observations size
  obtain ⟨padded, padSize, returned, least, -, -, unpadded⟩ :=
    (pad_unpad_iff rowWise_dropColumns aligned (by decide : 0 < 7)).mpr (.inr ⟨rfl, rfl⟩)
  have seven : IsLeast {m | 7 ∣ m ∧ 3 ≤ m} 7 :=
    isLeast_padded (by decide : 0 < 7) (by decide : ¬7 ∣ 3)
  exact ⟨padded, padSize, returned, least.unique seven, unpadded⟩

/-- Labels without tensors cannot be padded to an even number. -/
theorem not_pad_labels : ¬∃ result, PadReturns (observations none) 2 result := by
  rintro ⟨result, returned⟩
  exact not_padReturns (by decide) (by decide) rfl result returned

end Labels

end DataProto

end Verl.Protocol
