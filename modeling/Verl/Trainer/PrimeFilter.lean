import Verl.Base.Binary64Arithmetic
import Verl.Base.Ranking
import Verl.Trainer.BalanceBatch

/-! `RayPRIMETrainer.filter_and_downsample` and the batch size of its data loader, of
`recipe/prime/prime_ray_trainer.py`. The factor is a float of Python; the mean of torch and its
`argsort`, which is not stable, are parameters. -/
namespace Verl.Trainer
open Protocol Double

structure PrimeConfig where
  rolloutN : Nat
  trainBatchSize : Nat
  oversampleFactor : Double
  filterAccuracy : Bool
  accuracyLowerBound : ℚ
  accuracyUpperBound : ℚ
  filterTruncate : Bool
  maxResponseLength : Int

section Model

variable {U μ : Type}

def sliceTo {α : Type} (stop : Int) (xs : List α) : List α :=
  if 0 ≤ stop then xs.take stop.toNat else xs.take (xs.length - (-stop).toNat)

def reshapeRows {α : Type} (size : Nat) (xs : List α) : Py (List (List α)) :=
  if size = 0 ∨ xs.length % size ≠ 0 then .error (.runtime "shape is invalid for input")
  else .ok (blocks size (xs.length / size) xs)

def clearMask (out mask : List Bool) : Py (List Bool) :=
  if out.length = mask.length then
    .ok (List.zipWith (fun out kept => if out then false else kept) out mask)
  else .error .index

def clearAccuracy (torchMean : List ℚ → ℚ) (config : PrimeConfig) (rewardMatrix : List (List ℚ))
    (filterMask : List Bool) : Py (List Bool) :=
  if config.filterAccuracy then
    clearMask (rewardMatrix.map (fun rewards =>
      decide (torchMean rewards > config.accuracyUpperBound ∨
        torchMean rewards < config.accuracyLowerBound))) filterMask
  else .ok filterMask

def clearTruncated (config : PrimeConfig) (batch : TrainBatch ℚ U μ) (filterMask : List Bool) :
    Py (List Bool) :=
  if config.filterTruncate then do
    let attentionMask ← tensor batch "attention_mask"
    let responses ← tensor batch "responses"
    let masks ← attentionMask.rows.mapM Cell.asBits
    let lengths := masks.map (fun mask =>
      (lastColumns (responses.shape.getLastD 0) mask).count true)
    let lengthMatrix ← reshapeRows config.rolloutN lengths
    let lengthTensor := lengthMatrix.map (fun lengths => lengths.foldl max 0)
    clearMask (lengthTensor.map
      (fun length => decide ((length : Int) ≥ config.maxResponseLength - 1))) filterMask
  else .ok filterMask

def filterMask (torchMean : List ℚ → ℚ) (config : PrimeConfig) (scores : List ℚ)
    (batch : TrainBatch ℚ U μ) :
    Py (List Bool) := do
  let rewardMatrix ← reshapeRows config.rolloutN scores
  let filterMask ← clearAccuracy torchMean config rewardMatrix
    (List.replicate rewardMatrix.length true)
  clearTruncated config batch filterMask

def keptRows (torchMean : List ℚ → ℚ) (argsort : List Bool → List Nat) (config : PrimeConfig)
    (scores : List ℚ) (batch : TrainBatch ℚ U μ) : Py (List Nat) := do
  let filterMask ← filterMask torchMean config scores batch
  let reorderIndex := (argsort filterMask).flatMap (fun group =>
    (List.range config.rolloutN).map (fun k => group * config.rolloutN + k))
  let quotient ← floorDiv (← pyFloat batch.len) config.oversampleFactor
  let stop ← pyInt quotient
  return sliceTo stop reorderIndex

def filterAndDownsample (torchMean : List ℚ → ℚ) (argsort : List Bool → List Nat)
    (config : PrimeConfig)
    (scores : List ℚ) (batch : TrainBatch ℚ U μ) : Py (TrainBatch ℚ U μ) := do
  let kept ← keptRows torchMean argsort config scores batch
  batch.reorder kept

def loaderBatchSize (config : PrimeConfig) : Py Int := do
  let trainBatchSize ← pyFloat config.trainBatchSize
  pyInt (trainBatchSize.mul config.oversampleFactor)

end Model

/-- What the kept rows should be: whole groups, as many as a training step takes, and a group that
fails the filters only beside every group that passes. -/
structure Downsampled (config : PrimeConfig) (groups : Nat) (passes : List Bool) (kept : List Nat) :
    Prop where
  whole : ∃ chosen : List Nat, chosen.Nodup ∧ (∀ g ∈ chosen, g < groups) ∧
    kept = chosen.flatMap (blockIdx config.rolloutN)
  size : loaderBatchSize config = .ok (groups : Int) →
    kept.length = config.trainBatchSize * config.rolloutN
  prioritized : ∀ g, passes[g]? = some false → (∃ i ∈ kept, i / config.rolloutN = g) →
    ∀ other, passes[other]? = some true → ∀ i ∈ blockIdx config.rolloutN other, i ∈ kept

section Counts

theorem dvd_floor_mul_iff {n : Nat} (positive : 0 < n) (x : ℚ) :
    (n : Int) ∣ ⌊x * n⌋ ↔ Int.fract x < 1 / n := by
  have some : (0 : ℚ) < n := Nat.cast_pos.mpr positive
  have parts : ⌊x * n⌋ = ⌊x⌋ * n + ⌊Int.fract x * n⌋ := by
    rw [← Int.floor_intCast_add]
    congr 1
    push_cast
    rw [← add_mul, Int.floor_add_fract]
  have low : 0 ≤ ⌊Int.fract x * n⌋ := Int.floor_nonneg.mpr (mul_nonneg (Int.fract_nonneg x) some.le)
  have high : ⌊Int.fract x * n⌋ < n := by
    rw [Int.floor_lt]
    push_cast
    nlinarith [Int.fract_lt_one x]
  rw [parts, Int.dvd_add_right (Int.dvd_mul_left _ _), lt_div_iff₀ some]
  constructor
  · intro divides
    have zero := Int.eq_zero_of_dvd_of_nonneg_of_lt low high divides
    exact (Int.floor_eq_zero_iff.mp zero).2
  · intro small
    have zero : ⌊Int.fract x * n⌋ = 0 :=
      Int.floor_eq_zero_iff.mpr ⟨mul_nonneg (Int.fract_nonneg x) some.le, small⟩
    rw [zero]
    exact Int.dvd_zero _

def keptCount (groups n : Nat) (factor : ℚ) : Nat :=
  min ⌊((groups * n : Nat) : ℚ) / factor⌋₊ (groups * n)

variable {groups n : Nat} {factor : ℚ} (positive : 0 < factor)

include positive

theorem keptCount_of_le_one (small : factor ≤ 1) : keptCount groups n factor = groups * n := by
  apply Nat.min_eq_right
  rw [Nat.le_floor_iff (by positivity), le_div_iff₀ positive]
  exact mul_le_of_le_one_right (by positivity) small

theorem keptCount_of_one_le (large : 1 ≤ factor) :
    (keptCount groups n factor : Int) = ⌊(groups * n : ℚ) / factor⌋ := by
  have nonneg : (0 : ℚ) ≤ ((groups * n : Nat) : ℚ) / factor := by positivity
  have bound : ⌊((groups * n : Nat) : ℚ) / factor⌋₊ ≤ groups * n :=
    Nat.floor_le_of_le (div_le_self (by positivity) large)
  rw [keptCount, Nat.min_eq_left bound, Int.natCast_floor_eq_floor nonneg, Nat.cast_mul]

theorem dvd_keptCount_iff (some : 0 < n) :
    n ∣ keptCount groups n factor ↔ factor ≤ 1 ∨ Int.fract ((groups : ℚ) / factor) < 1 / n := by
  by_cases small : factor ≤ 1
  · rw [keptCount_of_le_one positive small]
    simp [small]
  · have large : 1 ≤ factor := (not_le.mp small).le
    rw [← Int.natCast_dvd_natCast, keptCount_of_one_le positive large, ← dvd_floor_mul_iff some,
      div_mul_eq_mul_div]
    simp [small]

/-- With as many groups as the loader supplies for a factor above one, the cut leaves a training
batch exactly if the supplied groups reach its share. -/
theorem keptCount_eq_iff (some : 0 < n) (large : 1 < factor) {trainBatchSize : Nat}
    (below : (groups : ℚ) ≤ trainBatchSize * factor * (1 + 2 ^ (-53 : ℤ)))
    (rows : trainBatchSize * n < 2 ^ 53) :
    keptCount groups n factor = trainBatchSize * n ↔ trainBatchSize * factor ≤ groups := by
  have width : (0 : ℚ) < n := Nat.cast_pos.mpr some
  have share : ((trainBatchSize * n : Nat) : ℚ) * 2 ^ (-53 : ℤ) < 1 := by
    have : ((trainBatchSize * n : Nat) : ℚ) < 2 ^ 53 := by exact_mod_cast rows
    rw [zpow_neg, ← div_eq_mul_inv, div_lt_one (by positivity)]
    exact this
  have upper : (groups * n : ℚ) / factor < ((trainBatchSize * n : Nat) : Int) + 1 := by
    rw [div_lt_iff₀ positive]
    calc (groups * n : ℚ) ≤ trainBatchSize * factor * (1 + 2 ^ (-53 : ℤ)) * n :=
      mul_le_mul_of_nonneg_right below width.le
      _ = ((trainBatchSize * n : Nat) + (trainBatchSize * n : Nat) * 2 ^ (-53 : ℤ)) * factor := by
        rw [Nat.cast_mul]
        ring
      _ < ((trainBatchSize * n : Nat) + 1) * factor :=
        mul_lt_mul_of_pos_right (by linarith) positive
  rw [← Int.natCast_inj, keptCount_of_one_le positive large.le, Int.floor_eq_iff,
    and_iff_left upper, le_div_iff₀ positive]
  push_cast
  rw [mul_right_comm, mul_le_mul_iff_left₀ width]

end Counts

section Runs

variable {U μ : Type} {torchMean : List ℚ → ℚ} {config : PrimeConfig} {groups : Nat}
  {scores : List ℚ} {batch : TrainBatch ℚ U μ} {factor : ℚ} {supplied : Int}

/-- Responses to `groups` prompts, `rollout.n` each in a row. -/
structure PromptGroups (config : PrimeConfig) (groups : Nat) (batch : TrainBatch ℚ U μ) : Prop where
  aligned : batch.Aligned (groups * config.rolloutN)
  attentionMask : ∃ column, tensor batch "attention_mask" = .ok column ∧ ∀ cell ∈ column.rows,
    ∃ mask, cell = .bits mask
  responses : ∃ column, tensor batch "responses" = .ok column

theorem reshapeRows_ok {α : Type} {size : Nat} (positive : 0 < size) {xs : List α}
    (length : xs.length = groups * size) :
    ∃ rows, reshapeRows size xs = .ok rows ∧ rows.length = groups := by
  refine ⟨blocks size groups xs, ?_, length_blocks _ _ _⟩
  rw [reshapeRows, length, if_neg (by simp; omega), Nat.mul_div_cancel groups positive]

theorem clearMask_ok {out mask : List Bool} (same : out.length = groups)
    (length : mask.length = groups) :
    ∃ cleared, clearMask out mask = .ok cleared ∧ cleared.length = groups := by
  refine ⟨_, if_pos (same.trans length.symm), ?_⟩
  rw [List.length_zipWith, same, length, Nat.min_self]

theorem clearAccuracy_ok {config : PrimeConfig} {rewardMatrix : List (List ℚ)} {mask : List Bool}
    (rows : rewardMatrix.length = groups) (length : mask.length = groups) :
    ∃ cleared, clearAccuracy torchMean config rewardMatrix mask = .ok cleared ∧
      cleared.length = groups := by
  unfold clearAccuracy
  split
  case isTrue => exact clearMask_ok (by rw [List.length_map, rows]) length
  case isFalse => exact ⟨mask, rfl, length⟩

theorem clearTruncated_ok (several : 0 < config.rolloutN)
    (grouped : PromptGroups config groups batch) {mask : List Bool}
    (length : mask.length = groups) : ∃ cleared, clearTruncated config batch mask = .ok cleared ∧
      cleared.length = groups := by
  obtain ⟨attentionMask, found, bits⟩ := grouped.attentionMask
  obtain ⟨responses, response⟩ := grouped.responses
  obtain ⟨masks, read, -⟩ := mapM_forall₂ Cell.asBits (fun _ _ => True) attentionMask.rows (by
    intro cell member
    obtain ⟨mask, rfl⟩ := bits cell member
    exact ⟨mask, rfl, trivial⟩)
  have rows : masks.length = groups * config.rolloutN := by
    rw [length_mapM_ok read, tensor_rows grouped.aligned found]
  unfold clearTruncated
  split
  case isTrue =>
    rw [found, ok_bind, response, ok_bind, read, ok_bind]
    dsimp only
    have lengths : (masks.map (fun mask =>
      (lastColumns (responses.shape.getLastD 0) mask).count true)).length =
        groups * config.rolloutN := by rw [List.length_map, rows]
    obtain ⟨matrix, reshaped, count⟩ := reshapeRows_ok several lengths
    rw [reshaped, ok_bind]
    exact clearMask_ok (by simp [count]) length
  case isFalse => exact ⟨mask, rfl, length⟩

theorem filterMask_ok (several : 0 < config.rolloutN) (grouped : PromptGroups config groups batch)
    (scoreCount : scores.length = groups * config.rolloutN) :
    ∃ passes, filterMask torchMean config scores batch = .ok passes ∧ passes.length = groups := by
  obtain ⟨rewardMatrix, reshaped, rows⟩ := reshapeRows_ok several scoreCount
  have ones : (List.replicate rewardMatrix.length true).length = groups := by
    rw [List.length_replicate, rows]
  obtain ⟨accurate, cleared, length⟩ := clearAccuracy_ok rows ones
  obtain ⟨passes, done, count⟩ := clearTruncated_ok several grouped length
  refine ⟨passes, ?_, count⟩
  rw [filterMask, reshaped, ok_bind, cleared, ok_bind, done]

theorem PromptGroups.batch_isSome (grouped : PromptGroups config groups batch) :
    batch.batch.isSome = true := by
  obtain ⟨_, found⟩ := grouped.responses
  obtain ⟨td, present, -⟩ := tensor_ok found
  rw [present]
  rfl

theorem PromptGroups.len (grouped : PromptGroups config groups batch) :
    batch.len = groups * config.rolloutN := by
  obtain ⟨td, present⟩ := Option.isSome_iff_exists.mp grouped.batch_isSome
  unfold DataProto.len
  rw [present]
  exact grouped.aligned.batch td present

theorem loader_bounds (factored : config.oversampleFactor = finite factor)
    (loader : loaderBatchSize config = .ok supplied) (some : 0 < supplied)
    (prompts : config.trainBatchSize < 2 ^ 49) :
    1 / 2 ^ 50 ≤ factor ∧ (supplied : ℚ) ≤ config.trainBatchSize * factor * (1 + 2 ^ (-53 : ℤ)) ∧
      config.trainBatchSize * factor * (1 - 2 ^ (-53 : ℤ)) < supplied + 1 := by
  have whole : pyFloat config.trainBatchSize = .ok (finite config.trainBatchSize) := by
    rw [pyFloat, ofRat_int_small (by omega)]
    rfl
  rw [loaderBatchSize, whole, ok_bind, factored, mul] at loader
  have half : (2 : ℚ) ^ (-1022 : ℤ) ≤ 1 / 2 := by
    rw [one_div, ← zpow_neg_one]
    exact zpow_le_zpow_right₀ one_le_two (by decide)
  obtain ⟨visible, rfl⟩ := pyInt_ofRat_pos loader some
  have positive : 0 < (config.trainBatchSize : ℚ) * factor := lt_of_lt_of_le (by norm_num) visible
  have error := abs_le.mp (magnitude_error positive.ne')
  rw [halfPlace_of_normal (half.trans visible), abs_of_pos positive] at error
  refine ⟨?_, ?_, ?_⟩
  · have size : (config.trainBatchSize : ℚ) < 2 ^ 49 := by exact_mod_cast prompts
    by_contra tiny
    have share : (config.trainBatchSize : ℚ) * factor ≤ config.trainBatchSize * (1 / 2 ^ 50) :=
      mul_le_mul_of_nonneg_left (not_le.mp tiny).le (Nat.cast_nonneg _)
    linarith
  · linarith [Int.floor_le (magnitude (config.trainBatchSize * factor)), error.2]
  · linarith [Int.lt_floor_add_one (magnitude (config.trainBatchSize * factor)), error.1]

variable (factored : config.oversampleFactor = finite factor)
  (loader : loaderBatchSize config = .ok supplied) (some : 0 < supplied)
  (prompts : config.trainBatchSize < 2 ^ 49) (rows : groups * config.rolloutN < 2 ^ 49)

include factored loader some prompts rows

theorem keptRows_eq {argsort : List Bool → List Nat} {passes : List Bool}
    (masked : filterMask torchMean config scores batch = .ok passes)
    (grouped : PromptGroups config groups batch) (ordered : (argsort passes).length = groups) :
    keptRows torchMean argsort config scores batch =
      .ok (((argsort passes).flatMap (blockIdx config.rolloutN)).take
      (keptCount groups config.rolloutN factor)) := by
  obtain ⟨low, -, -⟩ := loader_bounds factored loader some prompts
  have positive : 0 < factor := lt_of_lt_of_le (by positivity) low
  have converted : pyFloat batch.len = .ok (finite (groups * config.rolloutN : Nat)) := by
    rw [grouped.len, pyFloat, ofRat_int_small (by omega)]
    rfl
  have bounded : ((groups * config.rolloutN : Nat) : ℚ) / factor < 2 ^ 100 := by
    have count : ((groups * config.rolloutN : Nat) : ℚ) < 2 ^ 49 := by exact_mod_cast rows
    rw [div_lt_iff₀ positive]
    linarith
  obtain ⟨stop, divided, nonneg, same⟩ := floorDiv_nat positive rows bounded
  obtain ⟨quotient, floored, whole⟩ := bind_ok_iff.mp divided
  unfold keptRows
  rw [masked, ok_bind, converted, ok_bind, factored, floored, ok_bind, whole, ok_bind, pure_eq_ok]
  simp only [← blockIdx_eq_map]
  rw [sliceTo, if_pos nonneg, Except.ok.injEq, List.take_eq_take_iff, length_flatMap_blockIdx,
    ordered, same, keptCount, Nat.min_assoc, Nat.min_self]

theorem keptCount_size_iff (several : 0 < config.rolloutN) (same : (groups : Int) = supplied) :
    keptCount groups config.rolloutN factor = config.trainBatchSize * config.rolloutN ↔
      (factor ≤ 1 → groups = config.trainBatchSize) ∧
        (1 < factor → config.trainBatchSize * factor ≤ groups) := by
  obtain ⟨low, share, reached⟩ := loader_bounds factored loader some prompts
  have positive : 0 < factor := lt_of_lt_of_le (by positivity) low
  obtain rfl := same
  rcases le_or_gt factor 1 with small | large
  · rw [keptCount_of_le_one positive small, Nat.mul_left_inj (Nat.ne_of_gt several)]
    simp [small, not_lt.mpr small]
  · have most : config.trainBatchSize ≤ groups + 1 := by
      have kept : (config.trainBatchSize : ℚ) * (1 - 2 ^ (-53 : ℤ)) < groups + 1 := by
        refine lt_of_le_of_lt ?_ (by exact_mod_cast reached)
        exact mul_le_mul_of_nonneg_right (le_mul_of_one_le_right (Nat.cast_nonneg _) large.le)
          (by norm_num)
      have below : (config.trainBatchSize : ℚ) < 2 ^ 49 := by exact_mod_cast prompts
      have less : (config.trainBatchSize : ℚ) < (groups + 1 : Nat) + 1 := by
        push_cast
        norm_num at kept
        linarith
      exact Nat.lt_succ_iff.mp (by exact_mod_cast less)
    have width : config.trainBatchSize * config.rolloutN < 2 ^ 53 := by
      have double : config.trainBatchSize ≤ 2 * groups := by omega
      calc config.trainBatchSize * config.rolloutN ≤ 2 * groups * config.rolloutN :=
        Nat.mul_le_mul_right _ double
        _ = 2 * (groups * config.rolloutN) := Nat.mul_assoc _ _ _
        _ < 2 ^ 53 := by omega
    rw [keptCount_eq_iff positive several large (by exact_mod_cast share) width]
    simp [large, not_le.mpr large]

variable {argsort : List Bool → List Nat} (ranks : ∀ mask, MarkedFirst mask (argsort mask))
  (several : 0 < config.rolloutN)

include ranks several

theorem downsampled_iff {passes : List Bool} (count : passes.length = groups) :
    Downsampled config groups passes (((argsort passes).flatMap (blockIdx config.rolloutN)).take
        (keptCount groups config.rolloutN factor)) ↔
      (factor ≤ 1 ∨ Int.fract ((groups : ℚ) / factor) < 1 / config.rolloutN) ∧
      ((groups : Int) = supplied → (factor ≤ 1 → groups = config.trainBatchSize) ∧
        (1 < factor → config.trainBatchSize * factor ≤ groups)) := by
  obtain ⟨low, -, -⟩ := loader_bounds factored loader some prompts
  have positive : 0 < factor := lt_of_lt_of_le (by positivity) low
  have ranked := ranks passes
  have ordered : (argsort passes).length = groups := (perm_length ranked.perm).trans count
  have bounded : keptCount groups config.rolloutN factor ≤ groups * config.rolloutN :=
    Nat.min_le_right _ _
  have length : (((argsort passes).flatMap (blockIdx config.rolloutN)).take
      (keptCount groups config.rolloutN factor)).length =
        keptCount groups config.rolloutN factor := by
    rw [List.length_take, length_flatMap_blockIdx, ordered, Nat.min_eq_left bounded]
  have size_iff := keptCount_size_iff factored loader some prompts rows several
  constructor
  · intro claimed
    constructor
    · obtain ⟨chosen, -, -, taken⟩ := claimed.whole
      rw [taken, length_flatMap_blockIdx] at length
      rw [← dvd_keptCount_iff positive several, ← length]
      exact Nat.dvd_mul_left _ _
    · intro same
      rw [← size_iff same, ← length]
      exact claimed.size (same ▸ loader)
  · rintro ⟨between, enough⟩
    constructor
    · rw [← dvd_keptCount_iff positive several] at between
      refine ⟨_, ?_, ?_, take_whole_groups between _⟩
      · exact (perm_nodup ranked.perm).sublist (List.take_sublist _ _)
      · intro g member
        exact count ▸ perm_inside ranked.perm g (List.mem_of_mem_take member)
    · intro same
      have here : (groups : Int) = supplied := Except.ok.inj (same.symm.trans loader)
      rw [length, size_iff here]
      exact enough here
    · rintro g fails ⟨i, taken, own⟩ other passing
      exact ranked.prioritized several taken own fails passing

/-- The rows that are kept are whole groups of the right number exactly when the cut by
`oversample_factor` falls between two groups and leaves `train_batch_size` of them. -/
theorem filter_and_downsample_iff (grouped : PromptGroups config groups batch)
    (scoreCount : scores.length = groups * config.rolloutN) :
    ∃ passes kept, filterMask torchMean config scores batch = .ok passes ∧
      keptRows torchMean argsort config scores batch = .ok kept ∧
      filterAndDownsample torchMean argsort config scores batch = .ok (batch.pickRows kept) ∧
      (Downsampled config groups passes kept ↔
        (factor ≤ 1 ∨ Int.fract ((groups : ℚ) / factor) < 1 / config.rolloutN) ∧
        ((groups : Int) = supplied → (factor ≤ 1 → groups = config.trainBatchSize) ∧
          (1 < factor → config.trainBatchSize * factor ≤ groups))) := by
  obtain ⟨passes, masked, count⟩ := filterMask_ok several grouped scoreCount
  have ranked := ranks passes
  have ordered : (argsort passes).length = groups := (perm_length ranked.perm).trans count
  have kept := keptRows_eq factored loader some prompts rows masked grouped ordered
  refine ⟨passes, _, masked, kept, ?_,
    downsampled_iff factored loader some prompts rows ranks several count⟩
  rw [filterAndDownsample, kept, ok_bind]
  apply DataProto.reorder_pickRows grouped.aligned grouped.batch_isSome
  intro i member
  obtain ⟨g, inside, here⟩ := List.mem_flatMap.mp (List.mem_of_mem_take member)
  exact blockIdx_inside (count ▸ perm_inside ranked.perm g inside) i here

end Runs

def fourPairs : TrainBatch ℚ String Unit where
  batch := some ⟨8, ⟨[
    ("attention_mask", ⟨[2], List.replicate 8 (.bits [true, true])⟩),
    ("responses", ⟨[1], List.replicate 8 (.tokens [5])⟩)], by decide⟩, by decide⟩
  nonTensorBatch := ⟨[("uid", ⟨[], ["a", "a", "b", "b", "c", "c", "d", "d"]⟩)], by decide⟩
  metaInfo := .empty

def oversampled (trainBatchSize : Nat) (oversampleFactor : Double) : PrimeConfig where
  rolloutN := 2
  trainBatchSize
  oversampleFactor
  filterAccuracy := false
  accuracyLowerBound := 1 / 5
  accuracyUpperBound := 4 / 5
  filterTruncate := false
  maxResponseLength := 4

theorem fourPairs_aligned : fourPairs.Aligned 8 where
  batch := by
    rintro batch ⟨⟩
    rfl
  nonTensorBatch := by decide

theorem fourPairs_grouped (trainBatchSize : Nat) (oversampleFactor : Double) :
    PromptGroups (oversampled trainBatchSize oversampleFactor) 4 fourPairs where
  aligned := fourPairs_aligned
  attentionMask := ⟨_, rfl, by
    intro cell member
    exact ⟨_, List.eq_of_mem_replicate member⟩⟩
  responses := ⟨_, rfl⟩

theorem filter_and_downsample_iff_twice :
    ∃ passes kept, filterMask mean (oversampled 2 (finite 2)) (List.replicate 8 1) fourPairs =
      .ok passes ∧
      keptRows mean markedOrder (oversampled 2 (finite 2)) (List.replicate 8 1) fourPairs =
        .ok kept ∧
      filterAndDownsample mean markedOrder (oversampled 2 (finite 2))
        (List.replicate 8 1) fourPairs = .ok (fourPairs.pickRows kept) ∧
      (Downsampled (oversampled 2 (finite 2)) 4 passes kept ↔
        ((2 : ℚ) ≤ 1 ∨ Int.fract ((4 : ℚ) / 2) < 1 / 2) ∧
        ((4 : Int) = 4 → ((2 : ℚ) ≤ 1 → 4 = 2) ∧ ((1 : ℚ) < 2 → (2 : ℚ) * 2 ≤ 4))) :=
  filter_and_downsample_iff rfl (by decide +kernel) (by decide) (by decide) (by decide)
    markedFirst_markedOrder
    (by decide) (fourPairs_grouped 2 (finite 2)) rfl

/-- With 4 prompts for 3 at a factor of 1.5, 5 rows are kept, not 6. -/
theorem half_group_kept :
    loaderBatchSize (oversampled 3 (finite (3 / 2))) = .ok 4 ∧
      filterMask mean (oversampled 3 (finite (3 / 2))) (List.replicate 8 1) fourPairs =
        .ok [true, true, true, true] ∧
      keptRows mean markedOrder (oversampled 3 (finite (3 / 2))) (List.replicate 8 1) fourPairs =
        .ok [0, 1, 2, 3, 4] ∧
      filterAndDownsample mean markedOrder (oversampled 3 (finite (3 / 2)))
        (List.replicate 8 1) fourPairs = .ok (fourPairs.pickRows [0, 1, 2, 3, 4]) ∧
      ¬Downsampled (oversampled 3 (finite (3 / 2))) 4 [true, true, true, true] [0, 1, 2, 3, 4] := by
  have loader : loaderBatchSize (oversampled 3 (finite (3 / 2))) = .ok 4 := by decide +kernel
  refine ⟨loader, by decide +kernel, by decide +kernel, by decide +kernel, ?_⟩
  intro claimed
  have rows := claimed.size loader
  cases rows

end Verl.Trainer
