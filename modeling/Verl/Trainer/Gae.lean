import Verl.Base.Discounted
import Verl.Trainer.TokenTensors

/-! `compute_gae_advantage_return` of `verl/trainer/ppo/core_algos.py` over an exact field. The
loop works on columns, and every operation on them acts on each row alone, so it is written for
one row. -/
namespace Verl.Trainer

section Model

variable {K : Type} [Field K]

def nextValues (genLen : Nat) (values : List K) (t : Nat) : Py K :=
  if t < genLen - 1 then pyGet values (t + 1) else .ok 0

/-- The body of the loop at `t`: `lastgaelam` and `advantages_reversed`. -/
def gaeStep (gamma lam : K) (rewards values : List K) (state : K × List K) (t : Nat) :
    Py (K × List K) := do
  let nextvalues ← nextValues rewards.length values t
  let reward ← pyGet rewards t
  let value ← pyGet values t
  let delta := reward + gamma * nextvalues - value
  let lastgaelam := delta + gamma * lam * state.1
  return (lastgaelam, state.2 ++ [lastgaelam])

def gaeRow (gamma lam : K) (rewards values : List K) : Py (List K) := do
  let genLen := rewards.length
  let (_, advantagesReversed) ← (List.range genLen).reverse.foldlM
    (gaeStep gamma lam rewards values) (0, [])
  if advantagesReversed.isEmpty then .error (.runtime "stack expects a non-empty TensorList")
  else return advantagesReversed.reverse

def gaeAdvantages (gamma lam : K) (tokenLevelRewards values : List (List K)) : Py (List (List K)) :=
  if tokenLevelRewards.map List.length = values.map List.length then
    (tokenLevelRewards.zip values).mapM (fun rows => gaeRow gamma lam rows.1 rows.2)
  else .error (.runtime "The size of tensor a must match the size of tensor b")

def gaeUnwhitened (gamma lam : K) (tokenLevelRewards values : List (List K)) :
    Py (List (List K) × List (List K)) := do
  let advantages ← gaeAdvantages gamma lam tokenLevelRewards values
  return (advantages, elementwise (· + ·) advantages values)

def computeGaeAdvantageReturn [DecidableEq K] (rsqrt : K → K) (gamma lam : K)
    (tokenLevelRewards values eosMask : List (List K)) : Py (List (List K) × List (List K)) := do
  let (advantages, returns) ← gaeUnwhitened gamma lam tokenLevelRewards values
  let advantages ← maskedWhiten rsqrt advantages eosMask
  return (advantages, returns)

end Model

section ClosedForm

variable {K : Type} [Field K]

def delta (gamma : K) (rewards values : List K) (t : Nat) : K :=
  rewards.getD t 0 + gamma * values.getD (t + 1) 0 - values.getD t 0

/-- The advantage at `t` as a sum over the positions from `t` on. -/
def gaeSum (gamma lam : K) (rewards values : List K) (t : Nat) : K :=
  discounted (gamma * lam) (delta gamma rewards values) rewards.length t

theorem gaeSum_last (gamma lam : K) (rewards values : List K) :
    gaeSum gamma lam rewards values rewards.length = 0 :=
  discounted_past _ _ (Nat.le_refl _)

theorem gaeSum_step (gamma lam : K) {rewards : List K} (values : List K) {t : Nat}
    (inside : t < rewards.length) :
    gaeSum gamma lam rewards values t =
      delta gamma rewards values t + gamma * lam * gaeSum gamma lam rewards values (t + 1) :=
  discounted_step _ _ inside

theorem nextValues_eq {genLen : Nat} {values : List K} (same : values.length = genLen) (t : Nat) :
    nextValues genLen values t = .ok (values.getD (t + 1) 0) := by
  unfold nextValues
  split
  case isTrue more =>
    have below : t + 1 < values.length := by omega
    rw [pyGet_of_lt below, List.getD_eq_getElem _ _ below]
  case isFalse last =>
    rw [List.getD_eq_default _ _ (by omega)]

theorem gaeStep_eq (gamma lam : K) {rewards values : List K} (same : values.length = rewards.length)
    {t : Nat} (inside : t < rewards.length) (later : List K) :
    gaeStep gamma lam rewards values (gaeSum gamma lam rewards values (t + 1), later) t =
      .ok (gaeSum gamma lam rewards values t, later ++ [gaeSum gamma lam rewards values t]) := by
  have below : t < values.length := by omega
  have now : rewards[t] + gamma * values.getD (t + 1) 0 - values[t] +
      gamma * lam * gaeSum gamma lam rewards values (t + 1) =
        gaeSum gamma lam rewards values t := by
    rw [gaeSum_step gamma lam values inside, delta, List.getD_eq_getElem _ _ inside,
      List.getD_eq_getElem _ _ below]
  unfold gaeStep
  rw [nextValues_eq same, ok_bind, pyGet_of_lt inside, ok_bind, pyGet_of_lt below, ok_bind]
  dsimp only
  rw [now]
  rfl

theorem gaeRow_eq (gamma lam : K) {rewards values : List K} (same : values.length = rewards.length)
    (some : rewards ≠ []) :
    gaeRow gamma lam rewards values =
      .ok ((List.range rewards.length).map (gaeSum gamma lam rewards values)) := by
  -- after the iteration at `t` the list holds the sums from the last position down to `t`
  have loop := foldlM_down (f := gaeStep gamma lam rewards values) (n := rewards.length)
    (fun t => (gaeSum gamma lam rewards values t,
      ((List.range' t (rewards.length - t)).map (gaeSum gamma lam rewards values)).reverse))
    (by
      intro t inside
      have count : rewards.length - t = rewards.length - (t + 1) + 1 := by omega
      rw [gaeStep_eq gamma lam same inside, count, List.range'_succ, List.map_cons,
        List.reverse_cons])
  simp only [gaeSum_last, Nat.sub_self, List.range'_zero, List.map_nil,
    List.reverse_nil, Nat.sub_zero, ← List.range_eq_range'] at loop
  have filled : ((List.range rewards.length).map
      (gaeSum gamma lam rewards values)).reverse.isEmpty = false := by
    simpa using some
  unfold gaeRow
  dsimp only
  rw [loop, ok_bind]
  simp only [filled, Bool.false_eq_true, if_false, List.reverse_reverse, pure_eq_ok]

theorem gaeSum_add_value_of_one (gamma : K) {rewards values : List K}
    (same : values.length = rewards.length) {t : Nat} (inside : t ≤ rewards.length) :
    gaeSum gamma 1 rewards values t + values.getD t 0 =
      discounted gamma (rewards.getD · 0) rewards.length t := by
  apply discounted_unique (g := fun t => gaeSum gamma 1 rewards values t + values.getD t 0)
    _ _ inside
  · rw [gaeSum_last, List.getD_eq_default _ _ (Nat.le_of_eq same), add_zero]
  · intro t inside
    rw [gaeSum_step gamma 1 values inside, delta]
    ring

theorem gaeSum_add_value_of_zero (gamma : K) {rewards : List K} (values : List K) {t : Nat}
    (inside : t < rewards.length) :
    gaeSum gamma 0 rewards values t + values.getD t 0 =
      rewards.getD t 0 + gamma * values.getD (t + 1) 0 := by
  rw [gaeSum_step gamma 0 values inside, delta]
  ring

end ClosedForm

section Batches

open Finset

variable {K : Type} [Field K] {bs len : Nat} {rewards values : List (List K)}

def gaeSums (gamma lam : K) (len : Nat) (rewards values : List (List K)) : List (List K) :=
  List.zipWith (fun reward value => (List.range len).map (gaeSum gamma lam reward value))
    rewards values

theorem hasShape_gaeSums (gamma lam : K) (rewardShape : HasShape bs len rewards)
    (valueShape : HasShape bs len values) :
    HasShape bs len (gaeSums gamma lam len rewards values) := by
  apply hasShape_zipWith rewardShape.1 valueShape.1
  intro a _ b _
  rw [List.length_map, List.length_range]

theorem entry_gaeSums (gamma lam : K) (rewardShape : HasShape bs len rewards)
    (valueShape : HasShape bs len values) {i t : Nat} (row : i < bs) (column : t < len) :
    entry (gaeSums gamma lam len rewards values) i t =
      gaeSum gamma lam (rowAt rewards i) (rowAt values i) t := by
  unfold entry gaeSums
  rw [rowAt_zipWith _ rewardShape.1 valueShape.1 row [] [], ← rowAt, ← rowAt,
    List.getD_eq_getElem _ _ (by simpa using column)]
  simp

theorem gaeAdvantages_eq (gamma lam : K) (rewardShape : HasShape bs len rewards)
    (valueShape : HasShape bs len values) (positive : 0 < len) :
    gaeAdvantages gamma lam rewards values = .ok (gaeSums gamma lam len rewards values) := by
  rw [gaeAdvantages, if_pos (rewardShape.same_lengths valueShape),
    gaeSums, ← List.map_uncurry_zip_eq_zipWith]
  apply mapM_ok
  intro rows member
  obtain ⟨inRewards, inValues⟩ := List.of_mem_zip (a := rows.1) (b := rows.2) member
  have rewardCount := rewardShape.2 _ inRewards
  have valueCount := valueShape.2 _ inValues
  rw [gaeRow_eq gamma lam (valueCount.trans rewardCount.symm)
    (by rw [← List.length_pos_iff]; omega), rewardCount]
  rfl

theorem gaeUnwhitened_eq (gamma lam : K) (rewardShape : HasShape bs len rewards)
    (valueShape : HasShape bs len values) (positive : 0 < len) :
    gaeUnwhitened gamma lam rewards values = .ok (gaeSums gamma lam len rewards values,
      elementwise (· + ·) (gaeSums gamma lam len rewards values) values) := by
  rw [gaeUnwhitened, gaeAdvantages_eq gamma lam rewardShape valueShape positive, ok_bind]
  rfl

/-- The advantages before whitening are the sums of the discounted temporal differences, and the
returns add the values to them. -/
theorem computeGaeAdvantageReturn_sums [DecidableEq K] (rsqrt : K → K) (gamma lam : K)
    (rewardShape : HasShape bs len rewards) (valueShape : HasShape bs len values)
    (positive : 0 < len) (eosMask : List (List K)) :
    ∃ advantages returns, gaeUnwhitened gamma lam rewards values = .ok (advantages, returns) ∧
      computeGaeAdvantageReturn rsqrt gamma lam rewards values eosMask =
        (maskedWhiten rsqrt advantages eosMask).map (fun whitened => (whitened, returns)) ∧
      HasShape bs len advantages ∧ HasShape bs len returns ∧
      ∀ i < bs, ∀ t < len,
        entry advantages i t = ∑ l ∈ range (len - t), (gamma * lam) ^ l *
          (entry rewards i (t + l) + gamma * entry values i (t + l + 1) - entry values i (t + l)) ∧
        entry returns i t = entry advantages i t + entry values i t ∧
        (lam = 1 → entry returns i t = ∑ l ∈ range (len - t), gamma ^ l * entry rewards i (t + l)) ∧
        (lam = 0 → entry returns i t = entry rewards i t + gamma * entry values i (t + 1)) := by
  have unwhitened := gaeUnwhitened_eq gamma lam rewardShape valueShape positive
  have sums := hasShape_gaeSums gamma lam rewardShape valueShape
  refine ⟨_, _, unwhitened, ?_, sums, hasShape_elementwise _ sums valueShape, ?_⟩
  · rw [computeGaeAdvantageReturn, unwhitened, ok_bind]
    rfl
  · intro i row t column
    have count := length_rowAt rewardShape row
    have same := (length_rowAt valueShape row).trans count.symm
    have advantage := entry_gaeSums gamma lam rewardShape valueShape row column
    have result := entry_elementwise (· + ·) sums valueShape row column
    refine ⟨?_, result, ?_, ?_⟩
    · rw [advantage, gaeSum, count]
      rfl
    · rintro rfl
      rw [result, advantage, entry, gaeSum_add_value_of_one gamma same (by omega), count]
      rfl
    · rintro rfl
      rw [result, advantage, entry, gaeSum_add_value_of_zero gamma _ (by omega)]
      rfl

theorem computeGaeAdvantageReturn_sums_two_tokens :
    HasShape 1 2 [[(0 : ℚ), 1]] ∧ HasShape 1 2 [[(1 / 2 : ℚ), 1 / 4]] ∧
      ∃ advantages returns,
        gaeUnwhitened (1 : ℚ) (1 / 2) [[0, 1]] [[1 / 2, 1 / 4]] = .ok (advantages, returns) ∧
        entry returns 0 0 = entry advantages 0 0 + 1 / 2 := by
  have rewardShape : HasShape 1 2 [[(0 : ℚ), 1]] := ⟨rfl, by simp⟩
  have valueShape : HasShape 1 2 [[(1 / 2 : ℚ), 1 / 4]] := ⟨rfl, by simp⟩
  obtain ⟨advantages, returns, run, -, -, -, entries⟩ :=
    computeGaeAdvantageReturn_sums id (1 : ℚ) (1 / 2) rewardShape valueShape (by decide) [[1, 1]]
  exact ⟨rewardShape, valueShape, advantages, returns, run,
    (entries 0 (by decide) 0 (by decide)).2.1⟩

end Batches

section MaskedPositions

variable {K : Type} [Field K]

/-- What a run that does not raise has made of its advantages and returns before the advantages are
whitened. -/
structure GaeReturns [DecidableEq K] (rsqrt : K → K) (gamma lam : K)
    (rewards values eosMask advantages returns : List (List K)) :
    Prop where
  unwhitened : gaeUnwhitened gamma lam rewards values = .ok (advantages, returns)
  run : ∃ whitened, computeGaeAdvantageReturn rsqrt gamma lam rewards values eosMask =
    .ok (whitened, returns)

/-- What two batches get at the valid positions is the same whenever they agree there. -/
def IgnoresMaskedPositions [DecidableEq K] (rsqrt : K → K) (gamma lam : K) (len : Nat)
    (valid : List Nat) : Prop :=
  ∀ rewards values rewards' values' advantages returns advantages' returns' : List (List K),
    HasShape valid.length len rewards → HasShape valid.length len values →
    HasShape valid.length len rewards' → HasShape valid.length len values' →
    AgreeOn (responseMask len valid) rewards rewards' →
      AgreeOn (responseMask len valid) values values' →
    GaeReturns rsqrt gamma lam rewards values (responseMask len valid) advantages returns →
    GaeReturns rsqrt gamma lam rewards' values' (responseMask len valid) advantages' returns' →
    AgreeOn (responseMask len valid) advantages advantages' ∧
      AgreeOn (responseMask len valid) returns returns'

theorem gaeSum_of_gamma_zero (lam : K) {rewards : List K} (values : List K) {t : Nat}
    (inside : t < rewards.length) :
    gaeSum 0 lam rewards values t = rewards.getD t 0 - values.getD t 0 := by
  rw [gaeSum_step 0 lam values inside, delta]
  ring

theorem gaeSum_agree {gamma lam : K} {len count t : Nat} {rewards values rewards' values' : List K}
    (rewardCount : rewards.length = len) (valueCount : values.length = len)
    (rewardCount' : rewards'.length = len) (valueCount' : values'.length = len)
    (sameRewards : ∀ s < count, rewards.getD s 0 = rewards'.getD s 0)
    (sameValues : ∀ s < count, values.getD s 0 = values'.getD s 0)
    (condition : gamma = 0 ∨ count = 0 ∨ count = len) (fits : count ≤ len) (here : t < count) :
    gaeSum gamma lam rewards values t = gaeSum gamma lam rewards' values' t := by
  rcases condition with rfl | rfl | rfl
  · rw [gaeSum_of_gamma_zero lam values (by omega), gaeSum_of_gamma_zero lam values' (by omega),
      sameRewards t here, sameValues t here]
  · cases here
  · unfold gaeSum
    rw [rewardCount, rewardCount']
    apply discounted_congr
    intro s _ inside
    have next : values.getD (s + 1) 0 = values'.getD (s + 1) 0 := by
      by_cases more : s + 1 < count
      · exact sameValues (s + 1) more
      · rw [List.getD_eq_default _ _ (by omega), List.getD_eq_default _ _ (by omega)]
    rw [delta, delta, sameRewards s inside, sameValues s inside, next]

theorem gaeSum_oneAt (gamma lam : K) {len count : Nat} (inside : count + 1 < len) :
    gaeSum gamma lam (oneAt len (count + 1) 0 1) (oneAt len (count + 1) 0 1) count = gamma := by
  have length := length_oneAt len (count + 1) (0 : K) 1
  have deltas : ∀ s, delta gamma (oneAt len (count + 1) (0 : K) 1) (oneAt len (count + 1) 0 1) s =
      if s = count then gamma else 0 := by
    intro s
    unfold delta
    rw [getD_oneAt, getD_oneAt]
    by_cases here : s = count
    · simp [here, inside]
    · simp [here]
  have rest : gaeSum gamma lam (oneAt len (count + 1) 0 1) (oneAt len (count + 1) 0 1) (count + 1) =
      0 := by
    apply discounted_zero
    intro s after _
    rw [deltas, if_neg (by omega)]
  rw [gaeSum_step gamma lam _ (by omega), rest, deltas, if_pos rfl, mul_zero, add_zero]

theorem gaeSum_zeros (gamma lam : K) (len t : Nat) :
    gaeSum gamma lam (List.replicate len 0) (List.replicate len 0) t = 0 := by
  apply discounted_zero
  intro s _ _
  simp only [delta, List.getD_eq_getElem?_getD, List.getElem?_getD_replicate_default_eq]
  ring

variable [DecidableEq K] [CharZero K] {rsqrt : K → K} {gamma lam : K} {len : Nat} {valid : List Nat}

theorem gaeReturns_iff {rewards values advantages returns : List (List K)} :
    GaeReturns rsqrt gamma lam rewards values (responseMask len valid) advantages returns ↔
      gaeUnwhitened gamma lam rewards values = .ok (advantages, returns) ∧ 2 ≤ valid.sum := by
  have runs : gaeUnwhitened gamma lam rewards values = .ok (advantages, returns) →
      ((∃ whitened, computeGaeAdvantageReturn rsqrt gamma lam rewards values
        (responseMask len valid) = .ok (whitened, returns)) ↔ 2 ≤ valid.sum) := by
    intro unwhitened
    have whitens : (∃ whitened,
      maskedWhiten rsqrt advantages (responseMask len valid) = .ok whitened) ↔ 2 ≤ valid.sum :=
      maskedWhiten_responseMask_iff
    rw [← whitens, computeGaeAdvantageReturn, unwhitened, ok_bind]
    constructor
    · rintro ⟨whitened, run⟩
      obtain ⟨result, whiten, -⟩ := bind_ok_iff.mp run
      exact ⟨result, whiten⟩
    · rintro ⟨result, whiten⟩
      exact ⟨result, bind_ok_iff.mpr ⟨result, whiten, rfl⟩⟩
  exact ⟨fun both => ⟨both.unwhitened, (runs both.unwhitened).mp both.run⟩, fun both =>
    ⟨both.1, (runs both.1).mpr both.2⟩⟩

variable (positive : 0 < len) (fits : ∀ count ∈ valid, count ≤ len)

include positive fits

theorem ignoresMaskedPositions_of
    (condition : gamma = 0 ∨ valid.sum ≤ 1 ∨ ∀ count ∈ valid, count = 0 ∨ count = len) :
    IgnoresMaskedPositions rsqrt gamma lam len valid := by
  intro rewards values rewards' values' advantages returns advantages' returns' rewardShape
    valueShape rewardShape' valueShape'
    sameRewards sameValues first second
  obtain ⟨first, many⟩ := gaeReturns_iff.mp first
  obtain ⟨second, -⟩ := gaeReturns_iff.mp second
  rw [gaeUnwhitened_eq gamma lam rewardShape valueShape positive] at first
  rw [gaeUnwhitened_eq gamma lam rewardShape' valueShape' positive] at second
  cases first
  cases second
  rw [agreeOn_responseMask_iff] at sameRewards sameValues
  have sums : ∀ i t, t < valid.getD i 0 →
      i < valid.length ∧ t < len ∧ entry (gaeSums gamma lam len rewards values) i t =
        entry (gaeSums gamma lam len rewards' values') i t := by
    intro i t here
    obtain ⟨row, short, column⟩ := valid_inside fits here
    have member : valid.getD i 0 ∈ valid := by
      rw [List.getD_eq_getElem _ _ row]
      exact List.getElem_mem row
    have ends : gamma = 0 ∨ valid.getD i 0 = 0 ∨ valid.getD i 0 = len := by
      rcases condition with zero | few | each
      · exact .inl zero
      · omega
      · exact .inr (each _ member)
    refine ⟨row, column, ?_⟩
    rw [entry_gaeSums gamma lam rewardShape valueShape row column,
      entry_gaeSums gamma lam rewardShape' valueShape' row column]
    exact gaeSum_agree (length_rowAt rewardShape row) (length_rowAt valueShape row)
      (length_rowAt rewardShape' row)
      (length_rowAt valueShape' row) (sameRewards i) (sameValues i) ends short here
  constructor
  · rw [agreeOn_responseMask_iff]
    intro i t here
    exact (sums i t here).2.2
  · rw [agreeOn_responseMask_iff]
    intro i t here
    obtain ⟨row, column, same⟩ := sums i t here
    rw [entry_elementwise _ (hasShape_gaeSums gamma lam rewardShape valueShape)
      valueShape row column,
        entry_elementwise _ (hasShape_gaeSums gamma lam rewardShape' valueShape') valueShape'
        row column, same,
      sameValues i t here]

theorem condition_of_ignoresMaskedPositions
    (ignores : IgnoresMaskedPositions rsqrt gamma lam len valid) :
    gamma = 0 ∨ valid.sum ≤ 1 ∨ ∀ count ∈ valid, count = 0 ∨ count = len := by
  by_contra broken
  rw [not_or, not_or] at broken
  obtain ⟨discount, many, short⟩ := broken
  push Not at short many
  obtain ⟨count, member, some, shorter⟩ := short
  obtain ⟨i, row, rfl⟩ := List.getElem_of_mem member
  have below := fits _ member
  let zeros : List (List K) := valid.map (fun _ => List.replicate len 0)
  let spikes : List (List K) := valid.map (fun count => oneAt len count 0 1)
  have zeroShape : HasShape valid.length len zeros := hasShape_map (by simp)
  have spikeShape : HasShape valid.length len spikes := hasShape_map (by simp)
  have agree : AgreeOn (responseMask len valid) zeros spikes := by
    rw [agreeOn_responseMask_iff]
    intro j t here
    have inside := inside_of_valid here
    unfold entry
    rw [rowAt_map _ inside 0, rowAt_map _ inside 0, List.getD_eq_getElem?_getD,
      List.getElem?_getD_replicate_default_eq, getD_oneAt, if_neg (by omega)]
  obtain ⟨same, -⟩ :=
    ignores zeros zeros spikes spikes _ _ _ _ zeroShape zeroShape spikeShape spikeShape agree agree
    (gaeReturns_iff.mpr ⟨gaeUnwhitened_eq gamma lam zeroShape zeroShape positive, many⟩)
    (gaeReturns_iff.mpr ⟨gaeUnwhitened_eq gamma lam spikeShape spikeShape positive, many⟩)
  rw [agreeOn_responseMask_iff] at same
  have leak := same i (valid[i] - 1) (by rw [List.getD_eq_getElem _ _ row]; omega)
  rw [entry_gaeSums gamma lam zeroShape zeroShape row (by omega),
    entry_gaeSums gamma lam spikeShape spikeShape row (by omega), rowAt_map _ row 0,
    rowAt_map _ row 0, gaeSum_zeros, List.getD_eq_getElem _ _ row] at leak
  obtain ⟨last, count⟩ : ∃ last, valid[i] = last + 1 := Nat.exists_eq_succ_of_ne_zero some
  rw [count, Nat.add_sub_cancel, gaeSum_oneAt gamma lam (by omega)] at leak
  exact discount leak.symm

/-- The masked positions are ignored exactly when nothing is carried back, no response ends early,
or there is at most one valid token, where the call raises. -/
theorem ignoresMaskedPositions_iff : IgnoresMaskedPositions rsqrt gamma lam len valid ↔
    gamma = 0 ∨ valid.sum ≤ 1 ∨ ∀ count ∈ valid, count = 0 ∨ count = len :=
  ⟨condition_of_ignoresMaskedPositions positive fits, ignoresMaskedPositions_of positive fits⟩

end MaskedPositions

theorem ignoresMaskedPositions_iff_early_stop :
    IgnoresMaskedPositions id (1 : ℚ) (19 / 20) 2 [1, 1] ↔
    (1 : ℚ) = 0 ∨ [1, 1].sum ≤ 1 ∨ ∀ count ∈ [1, 1], count = 0 ∨ count = 2 :=
  ignoresMaskedPositions_iff (by decide) (by decide)

/-- The value after the one valid token of the first row changes the return of that token. -/
theorem value_after_eos_leaks :
    AgreeOn (responseMask 2 [1, 1]) [[(0 : ℚ), 0], [0, 0]] [[0, 1], [0, 0]] ∧ ∀ rsqrt : ℚ → ℚ,
      (∃ whitened, computeGaeAdvantageReturn rsqrt (1 : ℚ) (19 / 20) [[0, 0], [0, 0]] [[0, 0],
        [0, 0]] [[1, 0], [1, 0]] = .ok (whitened, [[0, 0], [0, 0]])) ∧
      (∃ whitened, computeGaeAdvantageReturn rsqrt (1 : ℚ) (19 / 20) [[0, 0], [0, 0]] [[0, 1],
        [0, 0]] [[1, 0], [1, 0]] = .ok (whitened, [[1 / 20, 0], [0, 0]])) ∧
      ¬IgnoresMaskedPositions rsqrt (1 : ℚ) (19 / 20) 2 [1, 1] := by
  have agree : AgreeOn (responseMask 2 [1, 1]) [[(0 : ℚ), 0], [0, 0]] [[0, 1], [0, 0]] := by
    rw [agreeOn_responseMask_iff]
    intro i t here
    match i, t with
    | 0, 0 => rfl
    | 1, 0 => rfl
  have zero : gaeUnwhitened (1 : ℚ) (19 / 20) [[0, 0], [0, 0]] [[0, 0], [0, 0]] =
      .ok ([[0, 0], [0, 0]], [[0, 0], [0, 0]]) := by
    decide +kernel
  have one : gaeUnwhitened (1 : ℚ) (19 / 20) [[0, 0], [0, 0]] [[0, 1], [0, 0]] =
      .ok ([[1 / 20, -1], [0, 0]], [[1 / 20, 0], [0, 0]]) := by
    decide +kernel
  refine ⟨agree, fun rsqrt => ?_⟩
  have first : GaeReturns rsqrt _ _ _ _ (responseMask 2 [1, 1]) _ _ :=
    gaeReturns_iff.mpr ⟨zero, by decide⟩
  have second : GaeReturns rsqrt _ _ _ _ (responseMask 2 [1, 1]) _ _ :=
    gaeReturns_iff.mpr ⟨one, by decide⟩
  refine ⟨first.run, second.run, fun ignores => ?_⟩
  have shape : ∀ a b : ℚ, HasShape [1, 1].length 2 [[a, b], [0, 0]] := fun a b => ⟨rfl, by simp⟩
  obtain ⟨-, same⟩ :=
    ignores _ _ _ _ _ _ _ _ (shape 0 0) (shape 0 0) (shape 0 0) (shape 0 1) (fun _ _ _ => rfl)
      agree first second
  rw [agreeOn_responseMask_iff] at same
  have leak : (0 : ℚ) = 1 / 20 := same 0 0 (by decide)
  exact absurd leak (by decide +kernel)

end Verl.Trainer
