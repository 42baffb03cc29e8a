import Verl.Trainer.Fit

/-! How many actor updates a fresh, uninterrupted `fit` performs, and which state its
checkpoints hold. `RayPRIMETrainer.fit` counts up before it compares. -/
namespace Verl.Trainer

variable {config : TrainerConfig}

theorem actorUpdates_primeStep (config : TrainerConfig) (globalSteps : Nat) :
    actorUpdates (primeStep config globalSteps) = [globalSteps] := by
  unfold primeStep
  rw [actorUpdates_append, actorUpdates_append, actorUpdates_act, actorUpdates_act,
    if_neg (by simp), if_neg (by simp)]
  rfl

theorem actorUpdates_primeFinal (config : TrainerConfig) (globalSteps : Nat) :
    actorUpdates (primeFinal config globalSteps) = [] := by
  unfold primeFinal
  rw [actorUpdates_act, if_neg (by simp)]

theorem actorUpdates_ppoStep (config : TrainerConfig) (globalSteps : Nat) :
    actorUpdates (ppoStep config globalSteps) = [globalSteps].filter (config.criticWarmup ≤ ·) := by
  unfold ppoStep
  simp only [actorUpdates_append, actorUpdates_act]
  by_cases warm : config.criticWarmup ≤ globalSteps
  · simp [warm]
  · simp [warm]

/-- The loop of PRIME stops one step before the last, but not before its first pass. -/
theorem actorUpdates_primeLoop {batches globalSteps : Nat}
    (enough : config.totalTrainingSteps - 1 - globalSteps < batches) :
    actorUpdates (primeLoop config batches globalSteps) =
      List.range' globalSteps (config.totalTrainingSteps - 1 - globalSteps + 1) := by
  induction batches generalizing globalSteps with
  | zero => cases enough
  | succ batches ih =>
    unfold primeLoop
    rw [actorUpdates_append, actorUpdates_primeStep, List.range'_succ, List.singleton_append]
    split
    · rename_i last
      have none : config.totalTrainingSteps - 1 - globalSteps = 0 := by omega
      rw [actorUpdates_primeFinal, none]
      rfl
    · rename_i more
      have rest : config.totalTrainingSteps - 1 - globalSteps =
          config.totalTrainingSteps - 1 - (globalSteps + 1) + 1 := by
        omega
      rw [ih (by omega), ← rest]

theorem actorUpdates_ppoLoop {batches globalSteps : Nat}
    (enough : config.totalTrainingSteps - globalSteps < batches) :
    actorUpdates (ppoLoop config batches globalSteps) =
      (List.range' globalSteps (config.totalTrainingSteps - globalSteps + 1)).filter
        (config.criticWarmup ≤ ·) := by
  induction batches generalizing globalSteps with
  | zero => cases enough
  | succ batches ih =>
    unfold ppoLoop
    rw [actorUpdates_append, actorUpdates_ppoStep]
    have front (n : Nat) :
      List.range' globalSteps (n + 1) = [globalSteps] ++ List.range' (globalSteps + 1) n := rfl
    rw [front, List.filter_append]
    split
    · rename_i last
      have none : config.totalTrainingSteps - globalSteps = 0 := by omega
      rw [none]
      rfl
    · rename_i more
      have rest : config.totalTrainingSteps - globalSteps =
        config.totalTrainingSteps - (globalSteps + 1) + 1 := by omega
      rw [ih (by omega), ← rest]

theorem checkpoints_primeStep (config : TrainerConfig) (updates : Nat) :
    ∀ saved ∈ checkpoints updates (primeStep config (updates + 1)), saved.2 = saved.1 := by
  unfold primeStep act
  split
  · split
    · simp [checkpoints]
    · simp [checkpoints]
  · split
    · simp [checkpoints]
    · simp [checkpoints]

theorem checkpoints_primeFinal (config : TrainerConfig) (updates : Nat) :
    checkpoints updates (primeFinal config (updates + 1)) =
      if config.saveFreq > 0 ∧ (updates : Int) % config.saveFreq ≠ 0 then
        [(updates + 1, updates)]
      else [] := by
  have back : ((updates + 1 : Nat) : Int) - 1 = updates := by omega
  unfold primeFinal act
  rw [back]
  by_cases saves : config.saveFreq > 0 ∧ (updates : Int) % config.saveFreq ≠ 0
  · rw [if_pos saves, if_pos (by simpa using saves)]
    rfl
  · rw [if_neg saves, if_neg (by simpa using saves)]
    rfl

/-- A fresh fit of PRIME updates the actor `totalTrainingSteps` times, as often as that of
PPO, and each checkpoint holds the state after as many updates as its name says. -/
def MeetsTotal (config : TrainerConfig) (batches : Nat) : Prop :=
  (actorUpdates (primeFit config 0 batches)).length = config.totalTrainingSteps ∧
  (actorUpdates (primeFit config 0 batches)).length =
    (actorUpdates (ppoFit config 0 batches)).length ∧
  ∀ saved ∈ checkpoints 0 (primeFit config 0 batches), saved.2 = saved.1

theorem ones_emod {freq : Int} (positive : 0 < freq) : (1 : Int) % freq = 0 ↔ freq = 1 := by
  constructor
  · intro divides
    exact Int.eq_one_of_dvd_one (Int.le_of_lt positive) (Int.dvd_of_emod_eq_zero divides)
  · rintro rfl
    rfl

theorem primeFit_one {batches : Nat} (one : config.totalTrainingSteps = 1) (enough : 1 ≤ batches) :
    primeFit config 0 batches = primeStep config 1 ++ primeFinal config 2 := by
  obtain ⟨batches, rfl⟩ := Nat.exists_eq_succ_of_ne_zero (Nat.ne_of_gt enough)
  unfold primeFit primeLoop
  rw [if_pos (by omega)]

theorem checkpoints_one_iff {batches : Nat} (one : config.totalTrainingSteps = 1)
    (enough : 1 ≤ batches) :
    (∀ saved ∈ checkpoints 0 (primeFit config 0 batches), saved.2 = saved.1) ↔
      config.saveFreq ≤ 0 ∨ config.saveFreq = 1 := by
  rw [primeFit_one one enough, checkpoints_append, actorUpdates_primeStep]
  have final := checkpoints_primeFinal config 1
  have first := checkpoints_primeStep config 0
  change checkpoints (0 + [1].length) (primeFinal config 2) = _ at final
  rw [final]
  by_cases saving : 0 < config.saveFreq
  · simp only [Int.natCast_one, ne_eq, ones_emod saving]
    by_cases every : config.saveFreq = 1
    · simp only [every, not_true_eq_false, and_false, if_false, List.append_nil, or_true, iff_true]
      exact first
    · rw [if_pos ⟨saving, every⟩]
      constructor
      · intro all
        exact absurd (all (2, 1) (List.mem_append_right _ List.mem_cons_self)) (by decide)
      · intro ok
        omega
  · rw [if_neg (fun both => saving both.1), List.append_nil]
    exact ⟨fun _ => .inl (Int.not_lt.mp saving), fun _ => first⟩

theorem prime_meets_total_iff (config : TrainerConfig) {batches : Nat}
    (positive : 1 ≤ config.totalTrainingSteps) (enough : config.totalTrainingSteps ≤ batches) :
    MeetsTotal config batches ↔ config.valOnly = false ∧ config.totalTrainingSteps = 1 ∧
      (config.saveFreq ≤ 0 ∨ config.saveFreq = 1) ∧ config.criticWarmup ≤ 1 := by
  unfold MeetsTotal
  have prime : actorUpdates (primeFit config 0 batches) =
      List.range' 1 (config.totalTrainingSteps - 2 + 1) := by
    rw [primeFit, actorUpdates_primeLoop (by omega)]
    rfl
  rw [prime, List.length_range']
  cases training : config.valOnly with
  | true =>
    have none : ppoFit config 0 batches = [] := by rw [ppoFit, if_pos training]
    rw [none]
    constructor
    · rintro ⟨-, same, -⟩
      cases same
    · rintro ⟨off, -⟩
      cases off
  | false =>
    have ppo : actorUpdates (ppoFit config 0 batches) =
        (List.range' 1 config.totalTrainingSteps).filter (config.criticWarmup ≤ ·) := by
      rw [ppoFit, if_neg (by simp [training]), actorUpdates_ppoLoop (by omega), Nat.zero_add,
        Nat.sub_add_cancel positive]
    rw [ppo]
    constructor
    · rintro ⟨count, same, states⟩
      have one : config.totalTrainingSteps = 1 := by omega
      refine ⟨rfl, one, (checkpoints_one_iff one (by omega)).mp states, ?_⟩
      rw [one] at same
      by_contra late
      simp [late] at same
    · rintro ⟨-, one, freq, warm⟩
      refine ⟨by omega, ?_, (checkpoints_one_iff one (by omega)).mpr freq⟩
      rw [one]
      simp [warm]

def fourSteps : TrainerConfig := ⟨⟨.fsdp 1 Nat.one_pos false, none, false⟩, 4, 0, 2, false, none⟩

/-- PRIME updates three times and saves the state after the third as `global_step_4`. -/
theorem prime_misses_total :
    (actorUpdates (primeFit fourSteps 0 4) = [1, 2, 3] ∧
    actorUpdates (ppoFit fourSteps 0 4) = [1, 2, 3, 4] ∧
    checkpoints 0 (primeFit fourSteps 0 4) = [(2, 2), (4, 3)]) ∧ ¬MeetsTotal fourSteps 4 := by
  refine ⟨by decide, ?_⟩
  rintro ⟨count, -⟩
  exact absurd count (by decide)

theorem prime_meets_total_one :
    MeetsTotal { fourSteps with totalTrainingSteps := 1, saveFreq := 1 } 1 :=
  (prime_meets_total_iff { fourSteps with totalTrainingSteps := 1, saveFreq := 1 } (by decide)
    (by decide)).mpr (by decide)

end Verl.Trainer
