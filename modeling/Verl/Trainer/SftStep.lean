import Mathlib.Algebra.BigOperators.Group.List.Basic
import Mathlib.Algebra.Field.Rat
import Mathlib.LinearAlgebra.Prod
import Mathlib.Algebra.Order.Ring.Rat
import Verl.Base.Blocks
import Verl.Base.Python

/-! `FSDPSFTTrainer.training_step` and `_compute_loss_and_backward`, on all ranks at once. A scalar
of autograd is its value together with its gradient in the weights, so `backward()` adds the second
component of the loss it is called on; FSDP averages it over the ranks. -/
namespace Verl.Sft

section Model

variable {K V : Type} [Field K] [AddCommGroup V] [Module K V]

abbrev Scalar (K V : Type) := K × V

/-- A sequence of the batch, with the cross entropy of every shifted position. -/
structure SftRow (K V : Type) where
  lossMask : List Nat
  tokenLosses : List (Scalar K V)
  aligned : lossMask.length = tokenLosses.length + 1

structure SftConfig where
  microBatchSizePerGpu : Nat
  balanceDpToken : Bool
  useRemovePadding : Bool
  ulyssesSequenceParallelSize : Nat

def SftConfig.useSp (config : SftConfig) : Bool :=
  config.useRemovePadding && config.ulyssesSequenceParallelSize > 1

def flatMask (micro : List (SftRow K V)) : List Nat :=
  micro.flatMap (fun row => row.lossMask.dropLast)

def validTokens (micro : List (SftRow K V)) : Nat := (flatMask micro).sum

def maskedSum (micro : List (SftRow K V)) : Scalar K V :=
  (List.zipWith (fun loss mask => (mask : K) • loss) (micro.flatMap (·.tokenLosses))
    (flatMask micro)).sum

def dpSize (config : SftConfig) (worldSize : Nat) : Nat :=
  if config.balanceDpToken then
    if config.useSp then worldSize / config.ulyssesSequenceParallelSize else worldSize
  else 1

/-- `_compute_loss_and_backward` on every rank, up to `backward()`: the losses of the ranks. Without
a valid token the loss and its gradient are 0 / 0, and `none` is this nan. -/
def computeLosses (config : SftConfig) (micros : List (List (SftRow K V))) :
    List (Option (Scalar K V)) :=
  micros.map (fun micro =>
    let valid := if config.balanceDpToken then (micros.map validTokens).sum else validTokens micro
    if valid = 0 then none
    else some ((dpSize config micros.length : K) • (valid : K)⁻¹ • maskedSum micro))

section Nan

variable {M : Type} [AddCommGroup M]

def nanAdd (x y : Option M) : Option M := do return (← x) + (← y)

def nanSum : List (Option M) → Option M
  | [] => some 0
  | x :: xs => nanAdd x (nanSum xs)

def nanMean [Module K M] (xs : List (Option M)) : Option M :=
  (nanSum xs).map ((xs.length : K)⁻¹ • ·)

end Nan

structure StepState (K V : Type) where
  gradient : Option V
  stepLoss : List (Option K)

/-- One pass of the loop: `backward()` inside the helper, then the division of its result. -/
def microStep (nMicroBatches : Nat) (state : StepState K V) (losses : List (Option (Scalar K V))) :
    StepState K V where
  gradient := nanAdd state.gradient (nanMean (K := K) (losses.map (Option.map Prod.snd)))
  stepLoss := List.zipWith nanAdd state.stepLoss
    (losses.map (Option.map (fun loss => (nMicroBatches : K)⁻¹ • loss.1)))

/-- The micro batches of every rank, one list for each pass of the loop. The ranks meet in
collectives, so a rank with another number of passes leaves the others waiting. -/
def passes (config : SftConfig) (batches : List (List (SftRow K V))) :
    Py (List (List (List (SftRow K V)))) :=
  if config.microBatchSizePerGpu = 0 then .error (.runtime "split_size") else
  let micros := batches.map (split config.microBatchSizePerGpu)
  let count := (micros.headD []).length
  if micros.all (fun ms => ms.length = count) then
    .ok ((List.range count).map (fun j => micros.map (fun ms => ms.getD j [])))
  else .error (.runtime "Watchdog caught collective operation timeout")

structure StepResult (K V : Type) where
  /-- The accumulated gradient when `clip_grad_norm_` is called. -/
  gradient : Option V
  loss : Option K

def trainingStep (config : SftConfig) (batches : List (List (SftRow K V))) :
    Py (StepResult K V) := do
  let micros ← passes config batches
  let start : StepState K V := ⟨some 0, List.replicate batches.length (some 0)⟩
  let state := (micros.map (computeLosses config)).foldl (microStep micros.length) start
  return ⟨state.gradient, nanMean (K := K) state.stepLoss⟩

/-- What `train/loss` is to be the value of: the average over the passes and the ranks of the
normalised losses, with its gradient. -/
def objective (config : SftConfig) (micros : List (List (List (SftRow K V)))) :
    Option (Scalar K V) :=
  nanMean (K := K) (micros.map (fun micro => nanMean (K := K) (computeLosses config micro)))

end Model

section Sums

variable {K M N : Type} [Field K] [AddCommGroup M] [AddCommGroup N] [Module K M] [Module K N]

theorem nanAdd_zero (x : Option M) : nanAdd (some 0) x = x := by
  cases x <;> simp [nanAdd]

theorem nanAdd_zero_right (x : Option M) : nanAdd x (some 0) = x := by
  cases x <;> simp [nanAdd]

theorem nanAdd_assoc (x y z : Option M) : nanAdd (nanAdd x y) z = nanAdd x (nanAdd y z) := by
  cases x <;> cases y <;> cases z <;> simp [nanAdd, add_assoc]

theorem nanAdd_cross (w x y z : Option M) :
    nanAdd (nanAdd w x) (nanAdd y z) = nanAdd (nanAdd w y) (nanAdd x z) := by
  cases w <;> cases x <;> cases y <;> cases z <;> simp [nanAdd, add_add_add_comm]

theorem nanAdd_map (f : M →ₗ[K] N) (x y : Option M) :
    nanAdd (x.map f) (y.map f) = (nanAdd x y).map f := by
  cases x <;> cases y <;> simp [nanAdd]

theorem nanSum_map (f : M →ₗ[K] N) (xs : List (Option M)) :
    nanSum (xs.map (Option.map f)) = (nanSum xs).map f := by
  induction xs with
  | nil => simp [nanSum]
  | cons x xs ih => rw [List.map_cons, nanSum, nanSum, ih, nanAdd_map]

theorem nanMean_map (f : M →ₗ[K] N) (xs : List (Option M)) :
    nanMean (K := K) (xs.map (Option.map f)) = (nanMean (K := K) xs).map f := by
  rw [nanMean, nanSum_map, nanMean, Option.map_map, Option.map_map, List.length_map]
  congr 1
  funext x
  simp

theorem nanSum_zipWith {xs ys : List (Option M)} (same : xs.length = ys.length) :
    nanSum (List.zipWith nanAdd xs ys) = nanAdd (nanSum xs) (nanSum ys) := by
  induction xs generalizing ys with
  | nil =>
    obtain rfl := List.eq_nil_of_length_eq_zero same.symm
    exact (nanAdd_zero _).symm
  | cons x xs ih =>
    cases ys with
    | nil => cases same
    | cons y ys =>
      rw [List.zipWith_cons_cons, nanSum, ih (Nat.succ.inj same), nanAdd_cross, nanSum, nanSum]

theorem nanMean_zipWith {xs ys : List (Option M)} (same : xs.length = ys.length) :
    nanMean (K := K) (List.zipWith nanAdd xs ys) =
      nanAdd (nanMean (K := K) xs) (nanMean (K := K) ys) := by
  have scale := nanAdd_map ((xs.length : K)⁻¹ • (LinearMap.id : M →ₗ[K] M)) (nanSum xs) (nanSum ys)
  rw [nanMean, nanSum_zipWith same, List.length_zipWith, ← same, Nat.min_self, nanMean,
    nanMean, ← same]
  exact scale.symm

theorem nanSum_zeros (n : Nat) : nanSum (List.replicate n (some (0 : M))) = some 0 := by
  induction n with
  | zero => rfl
  | succ n ih => rw [List.replicate_succ, nanSum, ih, nanAdd_zero]

end Sums

section Loop

variable {K V : Type} [Field K] [AddCommGroup V] [Module K V]

/-- The loop adds up the gradients of the losses, and the losses divided by the number of passes. -/
theorem foldl_microStep (n : Nat) {ranks : Nat} {steps : List (List (Option (Scalar K V)))}
    (everywhere : ∀ losses ∈ steps, losses.length = ranks) (start : StepState K V)
    (length : start.stepLoss.length = ranks) :
    (steps.foldl (microStep n) start).gradient =
        nanAdd start.gradient ((nanSum (steps.map (nanMean (K := K)))).map Prod.snd) ∧
      nanMean (K := K) (steps.foldl (microStep n) start).stepLoss =
        nanAdd (nanMean (K := K) start.stepLoss)
          ((nanSum (steps.map (nanMean (K := K)))).map (fun loss => (n : K)⁻¹ • loss.1)) := by
  induction steps generalizing start with
  | nil => simp [nanSum, nanAdd_zero_right]
  | cons losses steps ih =>
    have here : losses.length = ranks := everywhere losses List.mem_cons_self
    have next := ih (fun ls member => everywhere ls (List.mem_cons_of_mem _ member))
      (microStep n start losses)
      (by simp [microStep, length, here])
    have gradients := nanMean_map (LinearMap.snd K K V) losses
    have values := nanMean_map ((n : K)⁻¹ • LinearMap.fst K K V) losses
    have added := nanAdd_map (LinearMap.snd K K V) (nanMean (K := K) losses)
      (nanSum (steps.map (nanMean (K := K))))
    have divided := nanAdd_map ((n : K)⁻¹ • LinearMap.fst K K V) (nanMean (K := K) losses)
      (nanSum (steps.map (nanMean (K := K))))
    have rows : start.stepLoss.length =
        (losses.map (Option.map (fun loss => (n : K)⁻¹ • loss.1))).length := by
      rw [List.length_map, length, here]
    constructor
    · rw [List.foldl_cons, next.1, microStep, List.map_cons, nanSum, nanAdd_assoc]
      congr 1
      exact (congrArg (nanAdd · _) gradients).trans added
    · rw [List.foldl_cons, next.2, microStep, nanMean_zipWith rows, List.map_cons,
        nanSum, nanAdd_assoc]
      congr 1
      exact (congrArg (nanAdd · _) values).trans divided

end Loop

section Gradient

variable {K V : Type} [Field K] [CharZero K] [AddCommGroup V] [Module K V]

omit [CharZero K] in
theorem length_computeLosses (config : SftConfig) (micros : List (List (SftRow K V))) :
    (computeLosses config micros).length = micros.length := by simp [computeLosses]

omit [Field K] [CharZero K] [AddCommGroup V] [Module K V] in
theorem passes_eq {config : SftConfig} {batches : List (List (SftRow K V))} {size : Nat}
    (ranks : batches ≠ [])
    (sizes : ∀ batch ∈ batches, batch.length = size) (positive : 0 < config.microBatchSizePerGpu) :
    ∃ micros, passes config batches = .ok micros ∧
      micros.length = max 1
        ((size + config.microBatchSizePerGpu - 1) / config.microBatchSizePerGpu) ∧
      ∀ micro ∈ micros, micro.length = batches.length := by
  have count : ∀ batch ∈ batches, (split config.microBatchSizePerGpu batch).length =
      max 1 ((size + config.microBatchSizePerGpu - 1) / config.microBatchSizePerGpu) := by
    intro batch member
    rw [split, length_blocks, sizes batch member]
  obtain ⟨first, others, rfl⟩ := List.exists_cons_of_ne_nil ranks
  have same : ((first :: others).map (split config.microBatchSizePerGpu)).all
      (fun ms => ms.length = (split config.microBatchSizePerGpu first).length) = true := by
    rw [List.all_map, List.all_eq_true]
    intro batch member
    simp [count batch member, count first List.mem_cons_self]
  refine ⟨(List.range (split config.microBatchSizePerGpu first).length).map (fun j =>
    ((first :: others).map (split config.microBatchSizePerGpu)).map (fun ms => ms.getD j [])), ?_,
      ?_, ?_⟩
  · rw [passes, if_neg (Nat.pos_iff_ne_zero.mp positive)]
    exact if_pos same
  · rw [List.length_map, List.length_range, count first List.mem_cons_self]
  · intro micro member
    obtain ⟨j, -, rfl⟩ := List.mem_map.mp member
    simp

/-- The loss that is reported is the value of the objective, and the accumulated gradient is its
gradient times the number of passes. -/
theorem trainingStep_eq {config : SftConfig} {batches : List (List (SftRow K V))}
    {micros : List (List (List (SftRow K V)))} (cut : passes config batches = .ok micros)
    (passed : 0 < micros.length) (everywhere : ∀ micro ∈ micros, micro.length = batches.length) :
    ∃ result, trainingStep config batches = .ok result ∧
      result.loss = (objective config micros).map Prod.fst ∧
      result.gradient = (objective config micros).map
        (fun loss => (micros.length : K) • loss.2) := by
  have ranks : ∀ losses ∈ micros.map (computeLosses config), losses.length = batches.length := by
    intro losses member
    obtain ⟨micro, there, rfl⟩ := List.mem_map.mp member
    rw [length_computeLosses, everywhere micro there]
  obtain ⟨gradient, loss⟩ :=
    foldl_microStep micros.length ranks ⟨some (0 : V), List.replicate batches.length (some (0 : K))⟩
    List.length_replicate
  have zero : nanMean (K := K) (List.replicate batches.length (some (0 : K))) = some 0 := by
    rw [nanMean, nanSum_zeros, Option.map_some, smul_zero]
  have counted : (micros.length : K) ≠ 0 := Nat.cast_ne_zero.mpr (Nat.pos_iff_ne_zero.mp passed)
  have total : objective config micros =
      (nanSum ((micros.map (computeLosses config)).map (nanMean (K := K)))).map
        ((micros.length : K)⁻¹ • ·) := by
    rw [objective, nanMean, List.length_map, List.map_map]
    rfl
  rw [zero, nanAdd_zero] at loss
  rw [nanAdd_zero] at gradient
  refine ⟨⟨_, _⟩, by rw [trainingStep, cut, ok_bind]; rfl, ?_, ?_⟩
  · rw [total, Option.map_map]
    exact loss
  · have restored : (fun loss : Scalar K V => (micros.length : K) • loss.2) ∘
      ((micros.length : K)⁻¹ • ·) = Prod.snd :=
      funext (fun loss => smul_inv_smul₀ counted loss.2)
    rw [total, Option.map_map, restored]
    exact gradient

/-- The accumulated gradient is the gradient of the reported loss exactly if there is one micro
batch, or the loss is nan, or its gradient vanishes. -/
theorem trainingStep_gradient_iff (config : SftConfig) (batches : List (List (SftRow K V)))
    (size : Nat) (ranks : batches ≠ []) (sizes : ∀ batch ∈ batches, batch.length = size)
    (positive : 0 < config.microBatchSizePerGpu) (divides : config.microBatchSizePerGpu ∣ size) :
    ∃ micros result, passes config batches = .ok micros ∧ trainingStep config batches = .ok result ∧
      result.loss = (objective config micros).map Prod.fst ∧
      (result.gradient = (objective config micros).map Prod.snd ↔
        size ≤ config.microBatchSizePerGpu ∨ ∀ loss, objective config micros = some loss →
          loss.2 = 0) := by
  obtain ⟨micros, cut, count, everywhere⟩ := passes_eq ranks sizes positive
  obtain ⟨result, returned, loss, gradient⟩ := trainingStep_eq cut (by omega) everywhere
  refine ⟨micros, result, cut, returned, loss, ?_⟩
  have one : size ≤ config.microBatchSizePerGpu ↔ micros.length = 1 := by
    obtain ⟨k, rfl⟩ := divides
    have ceiling : (config.microBatchSizePerGpu * k + config.microBatchSizePerGpu - 1) /
        config.microBatchSizePerGpu = k := by
      rw [Nat.add_sub_assoc positive, Nat.mul_add_div positive,
        Nat.div_eq_of_lt (by omega), Nat.add_zero]
    have single : config.microBatchSizePerGpu * k ≤ config.microBatchSizePerGpu ↔ k ≤ 1 := by
      constructor
      · intro below
        exact Nat.le_of_mul_le_mul_left (by rwa [Nat.mul_one]) positive
      · intro below
        exact (Nat.mul_le_mul_left _ below).trans_eq (Nat.mul_one _)
    rw [count, ceiling, single]
    omega
  rw [one, gradient]
  cases objective config micros with
  | none => simp
  | some loss =>
    simp only [Option.map_some, Option.some.injEq, forall_eq']
    constructor
    · intro same
      have difference : ((micros.length : K) - 1) • loss.2 = 0 := by
        rw [sub_smul, one_smul, same, sub_self]
      rcases smul_eq_zero.mp difference with single | critical
      · left
        exact_mod_cast sub_eq_zero.mp single
      · exact .inr critical
    · rintro (single | critical)
      · rw [single, Nat.cast_one, one_smul]
      · rw [critical, smul_zero]

end Gradient

section Samples

/-- One rank with two sequences of one token; each token's loss is 1 with gradient 1. -/
def sampleBatches : List (List (SftRow ℚ ℚ)) := [[⟨[1, 0], [(1, 1)], rfl⟩, ⟨[1, 0], [(1, 1)], rfl⟩]]

def sampleConfig (microBatchSize : Nat) : SftConfig := ⟨microBatchSize, false, false, 1⟩

theorem sampleBatches_sizes : ∀ batch ∈ sampleBatches, batch.length = 2 := by simp [sampleBatches]

/-- Both sequences in one micro batch. -/
theorem trainingStep_gradient_single :
    ∃ micros result, passes (sampleConfig 2) sampleBatches = .ok micros ∧
    trainingStep (sampleConfig 2) sampleBatches = .ok result ∧
    result.gradient = (objective (sampleConfig 2) micros).map Prod.snd := by
  obtain ⟨micros, result, cut, returned, -, exact_when⟩ :=
    trainingStep_gradient_iff (sampleConfig 2) sampleBatches 2
    (by simp [sampleBatches]) sampleBatches_sizes (by decide) (by decide)
  exact ⟨micros, result, cut, returned, exact_when.mpr (.inl (by decide))⟩

/-- In two micro batches the reported loss is 1 with gradient 1, and 2 is accumulated. -/
theorem trainingStep_gradient_doubled :
    ¬∃ micros result, passes (sampleConfig 1) sampleBatches = .ok micros ∧
      trainingStep (sampleConfig 1) sampleBatches = .ok result ∧
      result.gradient = (objective (sampleConfig 1) micros).map Prod.snd := by
  rintro ⟨micros, result, cut, returned, same⟩
  have accumulated :
    (trainingStep (sampleConfig 1) sampleBatches).map (·.gradient) = .ok (some 2) := by
    decide +kernel
  have wanted : (passes (sampleConfig 1) sampleBatches).map
    (fun micros => (objective (sampleConfig 1) micros).map Prod.snd) =
      .ok (some 1) := by decide +kernel
  rw [returned] at accumulated
  rw [cut] at wanted
  cases (Except.ok.inj accumulated).symm.trans (same.trans (Except.ok.inj wanted))

end Samples

end Verl.Sft
