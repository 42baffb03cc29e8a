import Mathlib.Tactic.FieldSimp
import Verl.Base.Binary64Arithmetic
import Verl.Base.Python

/-! The KL controllers of `verl/trainer/ppo/core_algos.py` and how `RayPPOTrainer` makes one. A
training step hands the controller the measured KL and the batch size; a run is any sequence of
such updates. All arithmetic is that of floats. -/
namespace Verl.Trainer
open Double

section Model

structure AdaptiveKLController where
  value : Double
  target : Double
  horizon : Double
  deriving DecidableEq

/-- What `apply_kl_penalty` passes on: `n_steps` is the batch size. -/
structure KlUpdate where
  currentKl : Double
  nSteps : Nat

def pyDiv (a b : Double) : Py Double := if b = finite 0 then .error .zeroDivision else .ok (a.div b)

def AdaptiveKLController.mult (ctrl : AdaptiveKLController) (u : KlUpdate) : Py Double := do
  let ratio ← pyDiv u.currentKl ctrl.target
  let proportionalError := (ratio.sub (finite 1)).clip (ofRat (1 / 5)).neg (ofRat (1 / 5))
  let nSteps ← pyFloat u.nSteps
  let step ← pyDiv (proportionalError.mul nSteps) ctrl.horizon
  return (finite 1).add step

def AdaptiveKLController.update (ctrl : AdaptiveKLController) (u : KlUpdate) :
    Py AdaptiveKLController := do
  let mult ← ctrl.mult u
  return { ctrl with value := ctrl.value.mul mult }

inductive KlCtrlConfig where
  | fixed (klCoef : Double)
  | adaptive (klCoef targetKl horizon : Double)
  | other

inductive KLController where
  | fixed (value : Double)
  | adaptive (ctrl : AdaptiveKLController)

def klCtrl (useReferencePolicy : Bool) (config : KlCtrlConfig) : Py KLController :=
  if useReferencePolicy then
    match config with
    | .fixed klCoef => .ok (.fixed klCoef)
    | .adaptive klCoef targetKl horizon => do
      pyAssert ((finite 0).lt horizon) "horizon must be larger than 0."
      return .adaptive ⟨klCoef, targetKl, horizon⟩
    | .other => .error .notImplemented
  else .ok (.fixed (finite 0))

def KLController.update : KLController → KlUpdate → Py KLController
  | .fixed value, _ => .ok (.fixed value)
  | .adaptive ctrl, u => return .adaptive (← ctrl.update u)

def KLController.value : KLController → Double
  | .fixed value => value
  | .adaptive ctrl => ctrl.value

def KLController.coefficients (ctrl : KLController) : List KlUpdate → Py (List Double)
  | [] => .ok [ctrl.value]
  | u :: us => do
    let next ← ctrl.update u
    let rest ← next.coefficients us
    return ctrl.value :: rest

end Model

section Positive

structure PositiveFloat where
  x : ℚ
  positive : 0 < x
  exact : Exact x

/-- The part of the target by which the measured KL falls short of it, at most a fifth. -/
def shortfall (target : ℚ) : Double → ℚ
  | finite kl => min (1 / 5) (1 - kl / target)
  | inf negative => if negative then 1 / 5 else 0
  | nan => 0

/-- The part of the coefficient that an update takes away, with room for rounding. -/
def loss (target horizon : ℚ) (u : KlUpdate) : ℚ :=
  (shortfall target u.currentKl + 2 ^ (-50 : ℤ)) * u.nSteps / horizon

/-- The update leaves a part of the coefficient that a float can hold: a KL was measured, the batch
size is a float, and either the KL reaches the target or the batch is short for the horizon. -/
structure Damped (target horizon : ℚ) (value : Double) (u : KlUpdate) : Prop where
  measured : u.currentKl ≠ nan
  counted : ∃ x, pyFloat u.nSteps = .ok x
  kept : shortfall target u.currentKl ≤ 0 ∨ loss target horizon u ≤ 1 - 2 ^ (-50 : ℤ) ∧
    AtLeast (2 ^ (-1073 : ℤ) / (1 - loss target horizon u)) value

/-- Every update of the run is damped where it is made. -/
def DampedRun (target horizon : ℚ) : AdaptiveKLController → List KlUpdate → Prop
  | _, [] => True
  | ctrl, u :: us =>
    Damped target horizon ctrl.value u ∧ ∀ next, ctrl.update u = .ok next →
      DampedRun target horizon next us

theorem ofRat_fifth : ofRat (1 / 5) = finite (3602879701896397 / 2 ^ 54) := by decide +kernel

theorem short_parts {s : ℚ} (small : s ≤ 1 / 5) :
    s + 2 ^ (-53 : ℤ) + ((s + 2 ^ (-53 : ℤ)) * 2 ^ (-53 : ℤ) + 2 ^ (-1075 : ℤ)) < 1 ∧
      s + 2 ^ (-53 : ℤ) + ((s + 2 ^ (-53 : ℤ)) * 2 ^ (-53 : ℤ) + 2 ^ (-1075 : ℤ)) ≤
        s + 2 ^ (-52 : ℤ) := by
  have tiny : (2 : ℚ) ^ (-1075 : ℤ) ≤ 2 ^ (-55 : ℤ) := zpow_le_zpow_right₀ one_le_two (by decide)
  generalize (2 : ℚ) ^ (-1075 : ℤ) = rest at tiny ⊢
  norm_num at tiny ⊢
  constructor <;> linarith

/-- The rounding of an error, of the batch size and of their product fits the room of `loss`. -/
theorem product_parts {s n steps : ℚ} (positive : 0 < s) (small : s ≤ 1 / 5) (some : 1 ≤ n)
    (near : n ≤ steps * (1 + 2 ^ (-53 : ℤ))) :
    ((s + 2 ^ (-52 : ℤ)) * n + ((s + 2 ^ (-52 : ℤ)) * n * 2 ^ (-53 : ℤ) + 2 ^ (-1075 : ℤ))) *
      (1 + 2 ^ (-53 : ℤ)) ≤ (s + 2 ^ (-50 : ℤ)) * steps := by
  have tiny : (2 : ℚ) ^ (-1075 : ℤ) ≤ 2 ^ (-105 : ℤ) := zpow_le_zpow_right₀ one_le_two (by decide)
  have error : 2 ^ (-52 : ℤ) ≤ (s + 2 ^ (-52 : ℤ)) * n :=
    (le_add_of_nonneg_left positive.le).trans (le_mul_of_one_le_right (by positivity) some)
  have absorbed : (2 : ℚ) ^ (-1075 : ℤ) ≤ (s + 2 ^ (-52 : ℤ)) * n * 2 ^ (-53 : ℤ) := by
    refine tiny.trans ?_
    calc (2 : ℚ) ^ (-105 : ℤ) = 2 ^ (-52 : ℤ) * 2 ^ (-53 : ℤ) := by norm_num
      _ ≤ (s + 2 ^ (-52 : ℤ)) * n * 2 ^ (-53 : ℤ) :=
        mul_le_mul_of_nonneg_right error (by positivity)
  have counted : 0 ≤ steps := by
    by_contra negative
    have : steps * (1 + 2 ^ (-53 : ℤ)) < 0 :=
      mul_neg_of_neg_of_pos (not_le.mp negative) (by positivity)
    linarith
  have grown : (s + 2 ^ (-52 : ℤ)) * (1 + 2 * 2 ^ (-53 : ℤ)) * (1 + 2 ^ (-53 : ℤ)) *
    (1 + 2 ^ (-53 : ℤ)) ≤
      s + 2 ^ (-50 : ℤ) := by
    norm_num
    nlinarith
  calc ((s + 2 ^ (-52 : ℤ)) * n + ((s + 2 ^ (-52 : ℤ)) * n * 2 ^ (-53 : ℤ) + 2 ^ (-1075 : ℤ))) *
    (1 + 2 ^ (-53 : ℤ))
      ≤ (s + 2 ^ (-52 : ℤ)) * (1 + 2 * 2 ^ (-53 : ℤ)) * (1 + 2 ^ (-53 : ℤ)) * n := by
        have : (s + 2 ^ (-52 : ℤ)) * n +
          ((s + 2 ^ (-52 : ℤ)) * n * 2 ^ (-53 : ℤ) + 2 ^ (-1075 : ℤ)) ≤
            (s + 2 ^ (-52 : ℤ)) * n * (1 + 2 * 2 ^ (-53 : ℤ)) := by linarith
        have := mul_le_mul_of_nonneg_right this (show (0 : ℚ) ≤ 1 + 2 ^ (-53 : ℤ) by positivity)
        linarith
    _ ≤ (s + 2 ^ (-52 : ℤ)) * (1 + 2 * 2 ^ (-53 : ℤ)) * (1 + 2 ^ (-53 : ℤ)) *
      (steps * (1 + 2 ^ (-53 : ℤ))) :=
        mul_le_mul_of_nonneg_left near (by positivity)
    _ = (s + 2 ^ (-52 : ℤ)) * (1 + 2 * 2 ^ (-53 : ℤ)) * (1 + 2 ^ (-53 : ℤ)) *
      (1 + 2 ^ (-53 : ℤ)) * steps := by
        rw [mul_comm steps, mul_assoc _ _ steps]
    _ ≤ (s + 2 ^ (-50 : ℤ)) * steps := mul_le_mul_of_nonneg_right grown counted

theorem proportionalError_ge {target : ℚ} (positive : 0 < target) {kl : Double}
    (measured : kl ≠ nan) (short : 0 < shortfall target kl) :
    AtLeast (-(shortfall target kl + 2 ^ (-52 : ℤ)))
      (((kl.div (finite target)).sub (finite 1)).clip (ofRat (1 / 5)).neg (ofRat (1 / 5))) := by
  rw [ofRat_fifth]
  have clipped : ∀ x : Double, x ≠ nan → shortfall target kl = 1 / 5 →
      AtLeast (-(shortfall target kl + 2 ^ (-52 : ℤ)))
        (x.clip (finite (3602879701896397 / 2 ^ 54)).neg
        (finite (3602879701896397 / 2 ^ 54))) := by
    intro x known full
    refine ((atLeast_maximum known _).minimum _).mono ?_
    rw [full]
    norm_num
  cases kl with
  | nan => exact absurd rfl measured
  | inf negative =>
    cases negative with
    | false => exact absurd short (lt_irrefl 0)
    | true =>
      apply clipped
      · simp [div, scaleInf_of_pos positive, Double.sub, neg, add]
      · rfl
  | finite k =>
    rcases le_total (1 / 5) (1 - k / target) with far | near
    · apply clipped
      · rw [div]
        cases rounded : ofRat (k / target) with
        | finite r => exact ofRat_ne_nan _
        | inf negative => simp [Double.sub, neg, add]
        | nan => exact absurd rounded (ofRat_ne_nan _)
      · exact min_eq_left far
    · have part : shortfall target (finite k) = 1 - k / target := min_eq_right near
      rw [part] at short ⊢
      have half : (2 : ℚ) ^ (-1022 : ℤ) ≤ 2 ^ (-1 : ℤ) := zpow_le_zpow_right₀ one_le_two (by decide)
      have large : (1 : ℚ) ≤ ceiling := by exact_mod_cast Nat.one_le_two_pow
      have self : AtLeast k (finite k) := le_refl k
      have measured_part : k / target * 2 ^ (-53 : ℤ) ≤ 1 * 2 ^ (-53 : ℤ) :=
        mul_le_mul_of_nonneg_right (by linarith) (by positivity)
      have ratio : AtLeast (1 - (1 - k / target + 2 ^ (-53 : ℤ)))
        ((finite k).div (finite target)) :=
        (self.div positive (roundsAbove_pos (half.trans (by linarith)))).mono (by linarith)
      obtain ⟨small, sum⟩ := short_parts near
      have error : AtLeast (-(1 - k / target + 2 ^ (-52 : ℤ)))
          (((finite k).div (finite target)).sub (finite 1)) := by
        apply ratio.sub
        rw [sub_sub_cancel_left]
        exact (roundsAbove_neg (add_nonneg short.le (by positivity)) (small.trans_le large)).mono
          le_rfl (neg_le_neg sum)
      refine ((error.maximum _).minimum _).mono (le_min (le_max_left _ _) ?_)
      have nonneg : (0 : ℚ) ≤ 3602879701896397 / 2 ^ 54 := by positivity
      have here : (0 : ℚ) < 2 ^ (-52 : ℤ) := by positivity
      linarith

variable {target horizon : PositiveFloat} {value : Double} {u : KlUpdate}

theorem mult_ge_one (measured : u.currentKl ≠ nan)
    (reaches : shortfall target.x u.currentKl ≤ 0) {n : ℚ} (positive : 0 < n) :
    AtLeast 1 ((finite 1).add
      ((((u.currentKl.div (finite target.x)).sub (finite 1)).clip (ofRat (1 / 5)).neg
      (ofRat (1 / 5))).mul (finite n) |>.div (finite horizon.x))) := by
  have above : AtLeast target.x u.currentKl := by
    cases kl : u.currentKl with
    | nan => exact absurd kl measured
    | inf negative =>
      cases negative with
      | false => rfl
      | true =>
        rw [kl] at reaches
        norm_num [shortfall] at reaches
    | finite k =>
      rw [kl, shortfall, min_le_iff] at reaches
      have far : 1 ≤ k / target.x := by
        rcases reaches with full | part
        · norm_num at full
        · linarith
      exact (one_le_div target.positive).mp far
  have one : RoundsAbove 1 1 := by
    have power := roundsAbove_two_zpow (show (-1074 : ℤ) ≤ 0 by decide)
    rwa [zpow_zero] at power
  have ratio : AtLeast 1 (u.currentKl.div (finite target.x)) :=
    above.div target.positive (by rwa [div_self target.positive.ne'])
  have error : AtLeast 0 ((u.currentKl.div (finite target.x)).sub (finite 1)) :=
    ratio.sub (by
      rw [sub_self]
      exact roundsAbove_zero)
  have clipped : AtLeast 0
      (((u.currentKl.div (finite target.x)).sub (finite 1)).clip (ofRat (1 / 5)).neg
      (ofRat (1 / 5))) := by
    rw [ofRat_fifth]
    exact ((error.maximum _).minimum _).mono (le_min (le_max_left _ _) (by positivity))
  have steps := clipped.mul positive (by
    rw [zero_mul]
    exact roundsAbove_zero)
  have step := steps.div horizon.positive (by
    rw [zero_div]
    exact roundsAbove_zero)
  exact step.add (by rwa [add_zero])

/-- What an update takes off the coefficient: its loss, but for the last rounding. -/
theorem step_ge (measured : u.currentKl ≠ nan) (short : 0 < shortfall target.x u.currentKl)
    {n : ℚ} (some : 1 ≤ n) (near : n ≤ u.nSteps * (1 + 2 ^ (-53 : ℤ)))
    (kept : loss target.x horizon.x u ≤ 1 - 2 ^ (-50 : ℤ)) :
    AtLeast (-(loss target.x horizon.x u + 2 ^ (-1075 : ℤ)))
      ((((u.currentKl.div (finite target.x)).sub (finite 1)).clip
        (ofRat (1 / 5)).neg (ofRat (1 / 5))).mul (finite n) |>.div (finite horizon.x)) := by
  have error := proportionalError_ge target.positive measured short
  have fifth : shortfall target.x u.currentKl ≤ 1 / 5 := by
    cases u.currentKl with
    | finite k => exact min_le_left _ _
    | inf negative => cases negative <;> norm_num [shortfall]
    | nan => norm_num [shortfall]
  have parts := product_parts short fifth some near
  obtain ⟨-, inside⟩ := horizon.exact.magnitude_eq horizon.positive
  have whole : loss target.x horizon.x u * horizon.x =
      (shortfall target.x u.currentKl + 2 ^ (-50 : ℤ)) * u.nSteps :=
    div_mul_cancel₀ _ horizon.positive.ne'
  rw [← whole] at parts
  generalize loss target.x horizon.x u = l at *
  generalize shortfall target.x u.currentKl = s at *
  have room : l * horizon.x ≤ horizon.x := by
    have : l * horizon.x ≤ 1 * horizon.x :=
      mul_le_mul_of_nonneg_right (by norm_num at kept ⊢; linarith) horizon.positive.le
    linarith
  have product_nonneg : 0 ≤ (s + 2 ^ (-52 : ℤ)) * n := by positivity
  have rounded_nonneg : 0 ≤ (s + 2 ^ (-52 : ℤ)) * n +
      ((s + 2 ^ (-52 : ℤ)) * n * 2 ^ (-53 : ℤ) + 2 ^ (-1075 : ℤ)) := by
    positivity
  have grown : (s + 2 ^ (-52 : ℤ)) * n +
      ((s + 2 ^ (-52 : ℤ)) * n * 2 ^ (-53 : ℤ) + 2 ^ (-1075 : ℤ)) ≤ l * horizon.x :=
    (le_mul_of_one_le_right rounded_nonneg (le_add_of_nonneg_right (by positivity))).trans parts
  have product := error.mul (zero_lt_one.trans_le some) (by
    rw [neg_mul]
    exact roundsAbove_neg product_nonneg ((grown.trans room).trans_lt inside))
  generalize (s + 2 ^ (-52 : ℤ)) * n + ((s + 2 ^ (-52 : ℤ)) * n * 2 ^ (-53 : ℤ) + 2 ^ (-1075 : ℤ)) =
    p at *
  have scaled : p / horizon.x * (1 + 2 ^ (-53 : ℤ)) ≤ l := by
    rw [div_mul_eq_mul_div, div_le_iff₀ horizon.positive]
    exact parts
  have bounded : p / horizon.x + (p / horizon.x * 2 ^ (-53 : ℤ) + 2 ^ (-1075 : ℤ)) ≤
      l + 2 ^ (-1075 : ℤ) := by linarith
  have large : (2 : ℚ) ≤ ceiling := by
    have := lt_ceiling
    exact_mod_cast (by omega : 2 ≤ ceiling)
  refine (product.div horizon.positive ?_).mono (neg_le_neg bounded)
  rw [neg_div]
  refine roundsAbove_neg (div_nonneg rounded_nonneg horizon.positive.le)
    (bounded.trans_lt (lt_of_lt_of_le ?_ large))
  have small : (2 : ℚ) ^ (-1075 : ℤ) < 2 ^ (-50 : ℤ) := zpow_lt_zpow_right₀ one_lt_two (by decide)
  linarith

theorem mult_ge_half (measured : u.currentKl ≠ nan) (short : 0 < shortfall target.x u.currentKl)
    {n : ℚ} (some : 1 ≤ n) (near : n ≤ u.nSteps * (1 + 2 ^ (-53 : ℤ)))
    (kept : loss target.x horizon.x u ≤ 1 - 2 ^ (-50 : ℤ)) :
    AtLeast ((1 - loss target.x horizon.x u) / 2)
      ((finite 1).add ((((u.currentKl.div (finite target.x)).sub (finite 1)).clip
        (ofRat (1 / 5)).neg (ofRat (1 / 5))).mul (finite n) |>.div (finite horizon.x))) := by
  have step := step_ge measured short some near kept
  generalize loss target.x horizon.x u = l at kept step ⊢
  have left : (3 : ℚ) / 4 * (1 - l) ≤ 1 + -(l + 2 ^ (-1075 : ℤ)) := by
    have tiny : (2 : ℚ) ^ (-1075 : ℤ) ≤ 2 ^ (-53 : ℤ) := zpow_le_zpow_right₀ one_le_two (by decide)
    have quarter : (2 : ℚ) ^ (-1075 : ℤ) ≤ (1 - l) / 4 := by
      refine tiny.trans ?_
      norm_num at kept ⊢
      linarith
    linarith
  have normal : (2 : ℚ) ^ (-1022 : ℤ) ≤ 3 / 4 * (1 - l) := by
    have half : (2 : ℚ) ^ (-1022 : ℤ) ≤ 2 ^ (-51 : ℤ) := zpow_le_zpow_right₀ one_le_two (by decide)
    refine half.trans ?_
    norm_num at kept ⊢
    linarith
  refine step.add ((roundsAbove_pos normal).mono left ?_)
  norm_num at kept ⊢
  linarith

theorem update_atLeast (damped : Damped target.x horizon.x value u) (batch : 1 ≤ u.nSteps)
    (positive : AtLeast (2 ^ (-1074 : ℤ)) value) :
    ∃ next, AdaptiveKLController.update ⟨value, finite target.x, finite horizon.x⟩ u =
        .ok ⟨next, finite target.x, finite horizon.x⟩ ∧ AtLeast (2 ^ (-1074 : ℤ)) next := by
  obtain ⟨measured, ⟨steps, counted⟩, kept⟩ := damped
  obtain ⟨n, rfl, some, near⟩ := pyFloat_bounds batch counted
  have target_ne : finite target.x ≠ finite 0 := fun zero => target.positive.ne' (finite.inj zero)
  have horizon_ne : finite horizon.x ≠ finite 0 :=
    fun zero => horizon.positive.ne' (finite.inj zero)
  have least : RoundsAbove (2 ^ (-1074 : ℤ)) (2 ^ (-1074 : ℤ)) := roundsAbove_two_zpow le_rfl
  refine ⟨value.mul ((finite 1).add
    ((((u.currentKl.div (finite target.x)).sub (finite 1)).clip (ofRat (1 / 5)).neg
    (ofRat (1 / 5))).mul (finite n) |>.div (finite horizon.x))), ?_, ?_⟩
  · simp only [AdaptiveKLController.update, AdaptiveKLController.mult, pyDiv, counted,
      if_neg target_ne, if_neg horizon_ne]
    rfl
  · have short_or : shortfall target.x u.currentKl ≤ 0 ∨ 0 < shortfall target.x u.currentKl :=
      le_or_gt _ _
    rcases short_or with reaches | short
    · apply positive.mul_pos (mult_ge_one measured reaches (zero_lt_one.trans_le some))
        (by positivity) one_pos
      rwa [mul_one]
    · obtain ⟨bound, enough⟩ := kept.resolve_left (not_le.mpr short)
      have left : 0 < 1 - loss target.x horizon.x u := by
        have : (0 : ℚ) < 2 ^ (-50 : ℤ) := by positivity
        linarith
      apply enough.mul_pos (mult_ge_half measured short some near bound) (by positivity)
        (by positivity)
      have product : (2 : ℚ) ^ (-1073 : ℤ) / (1 - loss target.x horizon.x u) *
        ((1 - loss target.x horizon.x u) / 2) =
          2 ^ (-1074 : ℤ) := by
        rw [div_mul_div_comm, mul_comm (1 - loss target.x horizon.x u),
          mul_div_mul_right _ _ left.ne', show (-1073 : ℤ) = -1074 + 1 by
          rfl, zpow_add₀ two_ne_zero, zpow_one, mul_div_cancel_right₀ _ two_ne_zero]
      rwa [product]

/-- A run of damped updates returns, with positive coefficients only. -/
theorem coefficients_pos (us : List KlUpdate) (batches : ∀ u ∈ us, 1 ≤ u.nSteps)
    (positive : AtLeast (2 ^ (-1074 : ℤ)) value)
    (damped : DampedRun target.x horizon.x ⟨value, finite target.x, finite horizon.x⟩ us) :
    ∃ values, (KLController.adaptive ⟨value, finite target.x, finite horizon.x⟩).coefficients us =
      .ok values ∧ ∀ v ∈ values, (finite 0).lt v = true := by
  have here : (finite 0).lt value = true := positive.lt_zero (by positivity)
  induction us generalizing value with
  | nil => exact ⟨[value], rfl, by simpa using here⟩
  | cons u us ih =>
    obtain ⟨first, others⟩ := damped
    obtain ⟨next, updated, stays⟩ := update_atLeast first (batches u List.mem_cons_self) positive
    obtain ⟨values, run, all⟩ :=
      ih (fun v member => batches v (List.mem_cons_of_mem u member)) stays (others _ updated)
      (stays.lt_zero (by positivity))
    refine ⟨value :: values, ?_, ?_⟩
    · rw [KLController.coefficients, KLController.update, updated]
      change (do
        let rest ← KLController.coefficients (.adaptive ⟨next, finite target.x, finite horizon.x⟩)
          us
        return value :: rest) = _
      rw [run]
      rfl
    · rw [List.forall_mem_cons]
      exact ⟨here, all⟩

/-- Whatever the trainer makes of an adaptive setting with positive floats: along a run whose
updates are all damped the coefficient stays positive. -/
theorem klCtrl_adaptive_pos (klCoef targetKl horizon : PositiveFloat) (us : List KlUpdate)
    (batches : ∀ u ∈ us, 1 ≤ u.nSteps)
    (damped : DampedRun targetKl.x horizon.x ⟨finite klCoef.x, finite targetKl.x,
      finite horizon.x⟩ us) :
    ∃ ctrl values, klCtrl true
      (.adaptive (finite klCoef.x) (finite targetKl.x) (finite horizon.x)) = .ok ctrl ∧
      ctrl.coefficients us = .ok values ∧ ∀ value ∈ values, (finite 0).lt value = true := by
  have positive : (finite 0).lt (finite horizon.x) = true := by
    simp [lt, le, horizon.positive, horizon.positive.le]
  have made : klCtrl true (.adaptive (finite klCoef.x) (finite targetKl.x) (finite horizon.x)) =
      .ok (.adaptive ⟨finite klCoef.x, finite targetKl.x, finite horizon.x⟩) := by
    simp only [klCtrl, positive, pyAssert_true]
    rfl
  obtain ⟨values, run, all⟩ := coefficients_pos us batches
    (show AtLeast (2 ^ (-1074 : ℤ)) (finite klCoef.x)
      from klCoef.exact.two_zpow_le klCoef.positive) damped
  exact ⟨_, values, made, run, all⟩

theorem exact_settings :
    Exact (1152921504606847 / 2 ^ 60) ∧ Exact (3602879701896397 / 2 ^ 55) ∧ Exact 1000 := by
  refine ⟨?_, ?_, ?_⟩ <;> rw [Exact] <;> decide +kernel

def thousandth : PositiveFloat where
  x := 1152921504606847 / 2 ^ 60
  positive := by norm_num
  exact := exact_settings.1

def tenth : PositiveFloat where
  x := 3602879701896397 / 2 ^ 55
  positive := by norm_num
  exact := exact_settings.2.1

def thousand : PositiveFloat where
  x := 1000
  positive := by norm_num
  exact := exact_settings.2.2

/-- Two batches of 100 with horizon 1000 and a KL of zero. -/
theorem klCtrl_adaptive_pos_short_batches :
    ∃ ctrl values, klCtrl true
      (.adaptive (finite thousandth.x) (finite tenth.x) (finite thousand.x)) = .ok ctrl ∧
      ctrl.coefficients [⟨finite 0, 100⟩, ⟨finite 0, 100⟩] = .ok values ∧
      ∀ value ∈ values, (finite 0).lt value = true := by
  have lost : loss tenth.x thousand.x ⟨finite 0, 100⟩ = (1 / 5 + 2 ^ (-50 : ℤ)) / 10 := by
    norm_num [loss, shortfall, tenth, thousand]
  have damped : ∀ v : ℚ, 1 / 2000 ≤ v → Damped tenth.x thousand.x (finite v) ⟨finite 0, 100⟩ := by
    intro v above
    refine ⟨by simp, ⟨finite 100, by decide +kernel⟩, .inr ?_⟩
    have tiny : (2 : ℚ) ^ (-1073 : ℤ) ≤ 2 ^ (-12 : ℤ) := zpow_le_zpow_right₀ one_le_two (by decide)
    rw [lost]
    constructor
    · norm_num
    · change 2 ^ (-1073 : ℤ) / (1 - (1 / 5 + 2 ^ (-50 : ℤ)) / 10) ≤ v
      rw [div_le_iff₀ (by norm_num)]
      refine tiny.trans ?_
      norm_num
      linarith
  apply klCtrl_adaptive_pos thousandth tenth thousand
  · simp
  · refine ⟨damped _ (by norm_num [thousandth]), ?_⟩
    intro next updated
    have value : AdaptiveKLController.update ⟨finite thousandth.x, finite tenth.x,
      finite thousand.x⟩ ⟨finite 0, 100⟩ =
        .ok ⟨finite (564931537257355 / 2 ^ 59), finite tenth.x, finite thousand.x⟩ := by
          decide +kernel
    cases Except.ok.inj (value.symm.trans updated)
    exact ⟨damped _ (by norm_num), fun _ _ => trivial⟩

/-- A batch of five horizons with a KL of zero takes the coefficient to zero. -/
theorem klCtrl_adaptive_not_pos :
    ¬∃ ctrl values, klCtrl true (.adaptive (finite thousandth.x) (finite tenth.x) (finite 100)) =
      .ok ctrl ∧
      ctrl.coefficients [⟨finite 0, 500⟩] = .ok values ∧ ∀ value ∈ values,
        (finite 0).lt value = true := by
  rintro ⟨ctrl, values, made, run, positive⟩
  have zero : (klCtrl true (.adaptive (finite thousandth.x) (finite tenth.x) (finite 100)) >>=
    fun ctrl =>
      ctrl.coefficients [⟨finite 0, 500⟩]) = .ok [finite thousandth.x, finite 0] := by
        decide +kernel
  rw [made, ok_bind, run] at zero
  cases Except.ok.inj zero
  exact absurd (positive (finite 0) (by simp)) (by decide +kernel)

end Positive

end Verl.Trainer
