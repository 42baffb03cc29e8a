import Verl.Base.Discounted
import Verl.Trainer.TokenTensors

/-! `compute_reinforce_plus_plus_outcome_advantage` and `compute_remax_outcome_advantage` of
`verl/trainer/ppo/core_algos.py` over an exact field. Both return the rewards still to come; one
resets a running sum at the masked positions, the other masks first. -/
namespace Verl.Trainer

section Model

variable {K : Type} [Field K]

/-- The body of the loop at `t`: `running_return` and the row of `returns`. -/
def runningReturnStep (gamma : K) (rewards eosMask : List K) (state : K × List K) (t : Nat) :
    Py (K × List K) := do
  let reward ← pyGet rewards t
  let runningReturn := reward + gamma * state.1
  let returns ← pySet state.2 t runningReturn
  -- reset after EOS
  let mask ← pyGet eosMask t
  return (runningReturn * mask, returns)

def runningReturnRow (gamma : K) (rewards eosMask : List K) : Py (List K) := do
  let (_, returns) ← (List.range rewards.length).reverse.foldlM
    (runningReturnStep gamma rewards eosMask)
    (0, List.replicate rewards.length 0)
  return returns

def runningReturns (gamma : K) (tokenLevelRewards eosMask : List (List K)) : Py (List (List K)) :=
  if tokenLevelRewards.map List.length = eosMask.map List.length then
    (tokenLevelRewards.zip eosMask).mapM (fun rows => runningReturnRow gamma rows.1 rows.2)
  else .error (.runtime "The size of tensor a must match the size of tensor b")

def computeReinforcePlusPlusOutcomeAdvantage [DecidableEq K] (rsqrt : K → K) (gamma : K)
    (tokenLevelRewards eosMask : List (List K)) : Py (List (List K) × List (List K)) := do
  let returns ← runningReturns gamma tokenLevelRewards eosMask
  let advantages ← maskedWhiten rsqrt returns eosMask
  return (elementwise (· * ·) advantages eosMask, returns)

def computeRemaxOutcomeAdvantage (tokenLevelRewards : List (List K)) (rewardBaselines : List K)
    (eosMask : List (List K)) :
    Py (List (List K) × List (List K)) :=
  if tokenLevelRewards.map List.length = eosMask.map List.length ∧ rewardBaselines.length = eosMask.length then
    let returns := (elementwise (· * ·) tokenLevelRewards eosMask).map flipCumsumFlip
    let baselines := List.zipWith (fun row baseline => List.replicate row.length baseline)
      tokenLevelRewards rewardBaselines
    .ok (elementwise (· - ·) returns (elementwise (· * ·) baselines eosMask), returns)
  else .error (.runtime "The size of tensor a must match the size of tensor b")

end Model

section Rows

variable {K : Type} [Field K] {gamma : K} {len count : Nat} {rewards eosMask : List K}

def storedReturn (gamma : K) (rewards : List K) (count t : Nat) : K :=
  rewards.getD t 0 + gamma * discounted gamma (rewards.getD · 0) count (t + 1)

theorem storedReturn_valid (gamma : K) (rewards : List K) {t : Nat} (here : t < count) :
    storedReturn gamma rewards count t = discounted gamma (rewards.getD · 0) count t :=
  (discounted_step gamma (rewards.getD · 0) here).symm

theorem runningReturnStep_eq (gamma : K) (rewards : List K) {rest t : Nat}
    (fits : count + rest = rewards.length) (inside : t < rewards.length) (later : List K) :
    runningReturnStep gamma rewards (List.replicate count 1 ++ List.replicate rest 0)
        (discounted gamma (rewards.getD · 0) count (t + 1), List.replicate (t + 1) 0 ++ later) t =
      .ok (discounted gamma (rewards.getD · 0) count t,
        List.replicate t 0 ++ storedReturn gamma rewards count t :: later) := by
  have read : pyGet rewards t = .ok (rewards.getD t 0) := by
    rw [pyGet_of_lt inside, List.getD_eq_getElem _ _ inside]
  have mask : pyGet (List.replicate count 1 ++ List.replicate rest 0) t =
      .ok (if t < count then (1 : K) else 0) := by
    rw [pyGet_of_lt (by simp; omega), List.getElem_append]
    simp
  have reset : storedReturn gamma rewards count t * (if t < count then 1 else 0) =
      discounted gamma (rewards.getD · 0) count t := by
    split
    case isTrue here => rw [mul_one, storedReturn_valid gamma rewards here]
    case isFalse past => rw [mul_zero, discounted_past _ _ (Nat.le_of_not_lt past)]
  have stored : (List.replicate (t + 1) 0 ++ later).set t (storedReturn gamma rewards count t) =
      List.replicate t 0 ++ storedReturn gamma rewards count t :: later := by
    rw [List.replicate_succ', List.append_assoc, List.set_append_right _ _ (by simp)]
    simp
  unfold runningReturnStep
  rw [read, ok_bind]
  dsimp only
  rw [← storedReturn, pySet_of_lt (by simp; omega), ok_bind, mask, ok_bind, reset, stored]
  rfl

theorem runningReturnRow_eq (gamma : K) (rewards : List K) {rest : Nat}
    (fits : count + rest = rewards.length) :
    runningReturnRow gamma rewards (List.replicate count 1 ++ List.replicate rest 0) =
      .ok ((List.range rewards.length).map (storedReturn gamma rewards count)) := by
  have loop := foldlM_down
    (f := runningReturnStep gamma rewards (List.replicate count 1 ++ List.replicate rest 0))
    (n := rewards.length)
    (fun t => (discounted gamma (rewards.getD · 0) count t, List.replicate t 0 ++
      (List.range' t (rewards.length - t)).map (storedReturn gamma rewards count)))
    (by
      intro t inside
      have count : rewards.length - t = rewards.length - (t + 1) + 1 := by omega
      rw [runningReturnStep_eq gamma rewards fits inside, count, List.range'_succ, List.map_cons])
  rw [discounted_past _ _ (by omega)] at loop
  simp only [Nat.sub_self, List.range'_zero, List.map_nil, List.append_nil, List.replicate_zero,
    List.nil_append, Nat.sub_zero, ← List.range_eq_range'] at loop
  rw [runningReturnRow, loop]
  rfl

end Rows

section Batches

open Finset

variable {K : Type} [Field K] {len : Nat} {rewards : List (List K)} {valid : List Nat}

def storedReturns (gamma : K) (len : Nat) (rewards : List (List K)) (valid : List Nat) :
    List (List K) :=
  List.zipWith (fun row count => (List.range len).map (storedReturn gamma row count)) rewards valid

variable (shape : HasShape valid.length len rewards) (fits : ∀ count ∈ valid, count ≤ len)

include shape

theorem hasShape_storedReturns (gamma : K) :
    HasShape valid.length len (storedReturns gamma len rewards valid) := by
  apply hasShape_zipWith shape.1 rfl
  intro a _ count _
  rw [List.length_map, List.length_range]

include fits

theorem runningReturns_eq (gamma : K) :
    runningReturns gamma rewards (responseMask len valid) =
      .ok (storedReturns gamma len rewards valid) := by
  rw [runningReturns, if_pos (shape.same_lengths (hasShape_responseMask fits)), responseMask,
    List.zip_map_right, storedReturns, ← List.map_uncurry_zip_eq_zipWith]
  apply mapM_map_ok
  intro rows member
  obtain ⟨inRewards, inValid⟩ := List.of_mem_zip (a := rows.1) (b := rows.2) member
  have length := shape.2 _ inRewards
  have short := fits _ inValid
  rw [Prod.map_fst, Prod.map_snd, id_eq, runningReturnRow_eq gamma rows.1 (by omega), length]
  rfl

theorem entry_storedReturns (gamma : K) {i t : Nat} (here : t < valid.getD i 0) :
    entry (storedReturns gamma len rewards valid) i t =
      discounted gamma (entry rewards i) (valid.getD i 0) t := by
  obtain ⟨row, -, column⟩ := valid_inside fits here
  unfold entry storedReturns
  rw [rowAt_zipWith _ shape.1 rfl row [] 0, ← rowAt,
    List.getD_eq_getElem _ _ (by simpa using column)]
  simpa using storedReturn_valid gamma (rowAt rewards i) here

/-- ReMax adds up the masked rewards, so the sum stops at the last valid position. -/
theorem entry_remaxReturns {i t : Nat} (here : t < valid.getD i 0) :
    entry ((elementwise (· * ·) rewards (responseMask len valid)).map flipCumsumFlip) i t =
      discounted 1 (entry rewards i) (valid.getD i 0) t := by
  obtain ⟨row, short, column⟩ := valid_inside fits here
  have mask := hasShape_responseMask (K := K) fits
  have masked := hasShape_elementwise (· * ·) shape mask
  have product : ∀ s < len, entry (elementwise (· * ·) rewards (responseMask len valid)) i s =
      entry rewards i s * (if s < valid.getD i 0 then 1 else 0) := by
    intro s inside
    rw [entry_elementwise _ shape mask row inside, entry_responseMask]
  rw [entry, rowAt_map _ (masked.1.symm ▸ row) [], ← rowAt, getD_flipCumsumFlip,
    length_rowAt masked row]
  calc discounted 1 (entry (elementwise (· * ·) rewards (responseMask len valid)) i) len t
      = discounted 1 (entry (elementwise (· * ·) rewards (responseMask len valid)) i)
        (valid.getD i 0) t := by
        apply discounted_truncate short _ (Nat.le_of_lt here)
        intro s past inside
        rw [product s inside, if_neg (Nat.not_lt.mpr past), mul_zero]
    _ = discounted 1 (entry rewards i) (valid.getD i 0) t := by
        apply discounted_congr
        intro s _ inside
        rw [product s (by omega), if_pos inside, mul_one]

theorem computeRemaxOutcomeAdvantage_returns {rewardBaselines : List K}
    (baselines : rewardBaselines.length = valid.length) :
    ∃ advantages, computeRemaxOutcomeAdvantage rewards rewardBaselines (responseMask len valid) =
      .ok (advantages, (elementwise (· * ·) rewards (responseMask len valid)).map
        flipCumsumFlip) := by
  have rows := (hasShape_responseMask (K := K) fits).1
  rw [computeRemaxOutcomeAdvantage,
    if_pos ⟨shape.same_lengths (hasShape_responseMask fits), baselines.trans rows.symm⟩]
  exact ⟨_, rfl⟩

/-- At the valid positions the returns of REINFORCE++ are the discounted valid rewards still to
come, and without a discount those of ReMax. -/
theorem returns_are_rewards_to_go [DecidableEq K] (rsqrt : K → K) (gamma : K) :
    ∃ returns, runningReturns gamma rewards (responseMask len valid) = .ok returns ∧
      HasShape valid.length len returns ∧
      computeReinforcePlusPlusOutcomeAdvantage rsqrt gamma rewards (responseMask len valid) =
        (maskedWhiten rsqrt returns (responseMask len valid)).map
          (fun whitened => (elementwise (· * ·) whitened (responseMask len valid), returns)) ∧
      (∀ i t, t < valid.getD i 0 →
        entry returns i t = ∑ s ∈ Ico t (valid.getD i 0), gamma ^ (s - t) * entry rewards i s) ∧
      (∀ rewards', HasShape valid.length len rewards' →
        AgreeOn (responseMask len valid) rewards rewards' →
        ∃ returns', runningReturns gamma rewards' (responseMask len valid) = .ok returns' ∧
          AgreeOn (responseMask len valid) returns returns') ∧
      (gamma = 1 → ∀ rewardBaselines : List K, rewardBaselines.length = valid.length →
        ∃ advantages remaxReturns,
          computeRemaxOutcomeAdvantage rewards rewardBaselines (responseMask len valid) =
            .ok (advantages, remaxReturns) ∧
          AgreeOn (responseMask len valid) returns remaxReturns) := by
  have run := runningReturns_eq shape fits gamma
  refine ⟨_, run, hasShape_storedReturns shape gamma, ?_, ?_, ?_, ?_⟩
  · rw [computeReinforcePlusPlusOutcomeAdvantage, run, ok_bind]
    rfl
  · intro i t here
    rw [entry_storedReturns shape fits gamma here, discounted_eq_sum_Ico]
  · intro rewards' shape' agree
    refine ⟨_, runningReturns_eq shape' fits gamma, ?_⟩
    rw [agreeOn_responseMask_iff] at agree ⊢
    intro i t here
    rw [entry_storedReturns shape fits gamma here, entry_storedReturns shape' fits gamma here]
    apply discounted_congr
    intro s _ inside
    exact agree i s inside
  · rintro rfl rewardBaselines baselines
    obtain ⟨advantages, remax⟩ := computeRemaxOutcomeAdvantage_returns shape fits baselines
    refine ⟨advantages, _, remax, ?_⟩
    rw [agreeOn_responseMask_iff]
    intro i t here
    rw [entry_storedReturns shape fits 1 here, entry_remaxReturns shape fits here]

end Batches

theorem returns_are_rewards_to_go_early_stop :
    HasShape [2, 1].length 3 [[(1 : ℚ), 2, 5], [3, 5, 5]] ∧
      ∃ returns, runningReturns (1 / 2 : ℚ) [[1, 2, 5], [3, 5, 5]] (responseMask 3 [2, 1]) =
        .ok returns ∧
        entry returns 0 0 = ∑ s ∈ Finset.Ico 0 2,
          (1 / 2 : ℚ) ^ (s - 0) * entry [[1, 2, 5], [3, 5, 5]] 0 s := by
  have shape : HasShape [2, 1].length 3 [[(1 : ℚ), 2, 5], [3, 5, 5]] := ⟨rfl, by simp⟩
  obtain ⟨returns, run, -, -, sums, -⟩ := returns_are_rewards_to_go shape (by decide) id (1 / 2 : ℚ)
  exact ⟨shape, returns, run, sums 0 0 (by decide)⟩

end Verl.Trainer
