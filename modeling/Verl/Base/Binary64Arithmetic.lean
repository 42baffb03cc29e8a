import Mathlib.Algebra.Order.Field.Power
import Mathlib.Data.Rat.Floor
import Verl.Base.Binary64
import Verl.Base.Python

/-! The arithmetic of binary64: every operation rounds its exact result once. `AtLeast` and its
rules carry a lower bound through a chain of operations. -/
namespace Verl.Double

def neg : Double → Double
  | finite x => finite (-x)
  | inf negative => inf (!negative)
  | nan => nan

def add : Double → Double → Double
  | finite x, finite y => ofRat (x + y)
  | finite _, inf negative => inf negative
  | inf negative, finite _ => inf negative
  | inf a, inf b => if a = b then inf a else nan
  | _, _ => nan

def sub (x y : Double) : Double := add x (neg y)

def scaleInf (negative : Bool) (x : ℚ) : Double :=
  if x = 0 then nan else inf (negative != decide (x < 0))

def mul : Double → Double → Double
  | finite x, finite y => ofRat (x * y)
  | finite x, inf negative => scaleInf negative x
  | inf negative, finite x => scaleInf negative x
  | inf a, inf b => inf (a != b)
  | _, _ => nan

def div : Double → Double → Double
  | finite x, finite y => ofRat (x / y)
  | finite _, inf _ => finite 0
  | inf negative, finite x => scaleInf negative x
  | _, _ => nan

def lt (x y : Double) : Bool := le x y && !le y x

def maximum : Double → Double → Double
  | nan, _ => nan
  | _, nan => nan
  | x, y => if le x y then y else x

def minimum : Double → Double → Double
  | nan, _ => nan
  | _, nan => nan
  | x, y => if le x y then x else y

def clip (x low high : Double) : Double := minimum (maximum x low) high

def pyFloat (n : ℤ) : Py Double :=
  match ofRat n with
  | finite x => .ok (finite x)
  | _ => .error .overflow

def pyInt : Double → Py Int
  | finite x => .ok (x.num.tdiv x.den)
  | inf _ => .error .overflow
  | nan => .error (.value "cannot convert float NaN to integer")

def floor : Double → Double
  | finite x => finite ⌊x⌋
  | inf negative => inf negative
  | nan => nan

/-- CPython's quotient of `x // y`: the remainder is exact, the quotient is rounded twice and
snapped to the nearest integer. -/
def floorQuotient (x y : ℚ) : Double :=
  let mod := x - (x / y).num.tdiv (x / y).den * y
  let quotient := ((finite x).sub (finite mod)).div (finite y)
  let lowered := if mod ≠ 0 ∧ ¬(y < 0 ↔ mod < 0) then quotient.sub (finite 1) else quotient
  if lowered = finite 0 then finite 0
  else if lt (finite (1 / 2)) (lowered.sub lowered.floor) then lowered.floor.add (finite 1)
  else lowered.floor

def floorDiv (x y : Double) : Py Double :=
  if y = finite 0 then .error .zeroDivision
  else match x, y with
    | finite x, finite y => .ok (floorQuotient x y)
    | finite x, inf negative => .ok (finite (if x = 0 ∨ (x < 0 ↔ negative) then 0 else -1))
    | _, _ => .ok nan

def Exact (x : ℚ) : Prop := ofRat x = finite x

section Magnitude

theorem exponent_spec {num den : ℕ} (top : 0 < num) (bottom : 0 < den) :
    (2 : ℚ) ^ exponent num den ≤ num / den ∧ (num : ℚ) / den < 2 ^ (exponent num den + 1) := by
  have positive : (0 : ℚ) < den := Nat.cast_pos.mpr bottom
  have numLow : (2 : ℚ) ^ (num.log2 : ℤ) ≤ num := by
    rw [zpow_natCast]
    exact_mod_cast Nat.log2_self_le top.ne'
  have numHigh : (num : ℚ) < 2 ^ ((num.log2 : ℤ) + 1) := by
    rw [show (num.log2 : ℤ) + 1 = ((num.log2 + 1 : ℕ) : ℤ) by rfl, zpow_natCast]
    exact_mod_cast Nat.lt_log2_self
  have denLow : (2 : ℚ) ^ (den.log2 : ℤ) ≤ den := by
    rw [zpow_natCast]
    exact_mod_cast Nat.log2_self_le bottom.ne'
  have denHigh : (den : ℚ) < 2 ^ ((den.log2 : ℤ) + 1) := by
    rw [show (den.log2 : ℤ) + 1 = ((den.log2 + 1 : ℕ) : ℤ) by rfl, zpow_natCast]
    exact_mod_cast Nat.lt_log2_self
  have two : (2 : ℚ) ≠ 0 := two_ne_zero
  have tested : den * 2 ^ ((num.log2 : ℤ) - den.log2).toNat ≤
    num * 2 ^ (-((num.log2 : ℤ) - den.log2)).toNat ↔
      (2 : ℚ) ^ ((num.log2 : ℤ) - den.log2) ≤ num / den := by
    rw [le_div_iff₀ positive]
    rcases le_total 0 ((num.log2 : ℤ) - den.log2) with up | down
    · obtain ⟨k, same⟩ := Int.eq_ofNat_of_zero_le up
      rw [same, Int.toNat_natCast, show (-(k : ℤ)).toNat = 0 by omega, pow_zero, mul_one,
        zpow_natCast, mul_comm]
      exact_mod_cast Iff.rfl
    · obtain ⟨k, same⟩ := Int.eq_ofNat_of_zero_le (neg_nonneg.mpr down)
      have back : (num.log2 : ℤ) - den.log2 = -(k : ℤ) := by omega
      rw [same, Int.toNat_natCast, back, show (-(k : ℤ)).toNat = 0 by omega, pow_zero, mul_one,
        zpow_neg, zpow_natCast, inv_mul_le_iff₀ (by positivity), mul_comm]
      exact_mod_cast Iff.rfl
  rw [exponent]
  split
  · rename_i reaches
    refine ⟨tested.mp reaches, ?_⟩
    calc (num : ℚ) / den < 2 ^ ((num.log2 : ℤ) + 1) / 2 ^ (den.log2 : ℤ) :=
          div_lt_div₀ numHigh denLow (by positivity) (by positivity)
      _ = 2 ^ ((num.log2 : ℤ) - den.log2 + 1) := by
          rw [← zpow_sub₀ two]
          congr 1
          omega
  · rename_i short
    refine ⟨?_, ?_⟩
    · calc (2 : ℚ) ^ ((num.log2 : ℤ) - den.log2 - 1) =
        2 ^ (num.log2 : ℤ) / 2 ^ ((den.log2 : ℤ) + 1) := by
            rw [← zpow_sub₀ two]
            congr 1
            omega
        _ ≤ num / den := div_le_div₀ (by positivity) numLow positive denHigh.le
    · rw [sub_add_cancel]
      exact not_le.mp (fun reaches => short (tested.mpr reaches))

theorem nearestEven_error (a : ℕ) {d : ℕ} (positive : 0 < d) :
    |(nearestEven a d : ℚ) - a / d| ≤ 1 / 2 := by
  have unit : (0 : ℚ) < d := Nat.cast_pos.mpr positive
  have parts : (a : ℚ) = d * (a / d : ℕ) + (a % d : ℕ) := by
    exact_mod_cast (Nat.div_add_mod a d).symm
  have remainder : (a % d : ℕ) < d := Nat.mod_lt a positive
  have quotient : (a : ℚ) / d = (a / d : ℕ) + (a % d : ℕ) / d := by
    rw [div_eq_iff unit.ne', add_mul, div_mul_cancel₀ _ unit.ne']
    linarith
  rw [quotient, nearestEven]
  split
  · rename_i upper
    have half : (1 : ℚ) / 2 ≤ (a % d : ℕ) / d := by
      rw [le_div_iff₀ unit]
      have : (d : ℚ) ≤ 2 * (a % d : ℕ) := by exact_mod_cast (by omega : d ≤ 2 * (a % d))
      linarith
    have below : ((a % d : ℕ) : ℚ) / d < 1 := (div_lt_one unit).mpr (by exact_mod_cast remainder)
    rw [abs_le]
    push_cast
    constructor <;> linarith
  · rename_i lower
    have half : ((a % d : ℕ) : ℚ) / d ≤ 1 / 2 := by
      rw [div_le_iff₀ unit]
      have : 2 * ((a % d : ℕ) : ℚ) ≤ d := by exact_mod_cast (by omega : 2 * (a % d) ≤ d)
      linarith
    have nonneg : (0 : ℚ) ≤ (a % d : ℕ) / d := by positivity
    rw [abs_le]
    constructor <;> linarith

/-- The absolute value that `ofRat x` has where it is finite. -/
def magnitude (x : ℚ) : ℚ := significand x.num.natAbs x.den * 2 ^ lastPlace x.num.natAbs x.den

theorem magnitude_nonneg (x : ℚ) : 0 ≤ magnitude x := mul_nonneg (Nat.cast_nonneg _) (by positivity)

theorem ofRat_eq {x : ℚ} (nonzero : x ≠ 0) :
    ofRat x = if (ceiling : ℚ) ≤ magnitude x then inf (decide (x < 0))
      else finite (if x < 0 then -magnitude x else magnitude x) := by
  rw [ofRat, if_neg nonzero]
  rfl

theorem abs_eq_natAbs_div (x : ℚ) : |x| = x.num.natAbs / x.den := by
  nth_rewrite 1 [← Rat.num_div_den x]
  rw [abs_div, Nat.abs_cast, ← Int.cast_abs, Nat.cast_natAbs]

theorem scaled_eq (num den : ℕ) (e : ℤ) :
    ((num * 2 ^ (-e).toNat : ℕ) : ℚ) / (den * 2 ^ e.toNat : ℕ) = num / den / 2 ^ e := by
  rcases le_total 0 e with up | down
  · obtain ⟨k, rfl⟩ := Int.eq_ofNat_of_zero_le up
    rw [show (-(k : ℤ)).toNat = 0 by omega, Int.toNat_natCast, zpow_natCast, pow_zero,
      mul_one, div_div]
    push_cast
    rfl
  · obtain ⟨k, same⟩ := Int.eq_ofNat_of_zero_le (neg_nonneg.mpr down)
    have back : e = -(k : ℤ) := by omega
    subst back
    rw [neg_neg, Int.toNat_natCast, show (-(k : ℤ)).toNat = 0 by omega, zpow_neg, zpow_natCast,
      pow_zero, mul_one, div_inv_eq_mul, Nat.cast_mul, Nat.cast_pow, Nat.cast_ofNat,
      mul_div_right_comm]

variable {x : ℚ} (nonzero : x ≠ 0)

include nonzero

theorem two_zpow_exponent_le : (2 : ℚ) ^ exponent x.num.natAbs x.den ≤ |x| := by
  rw [abs_eq_natAbs_div]
  exact (exponent_spec (Int.natAbs_pos.mpr (Rat.num_ne_zero.mpr nonzero)) x.den_pos).1

theorem lt_two_zpow_exponent : |x| < 2 ^ (exponent x.num.natAbs x.den + 1) := by
  rw [abs_eq_natAbs_div]
  exact (exponent_spec (Int.natAbs_pos.mpr (Rat.num_ne_zero.mpr nonzero)) x.den_pos).2

omit nonzero in
theorem significand_error (x : ℚ) :
    |(significand x.num.natAbs x.den : ℚ) - |x| / 2 ^ lastPlace x.num.natAbs x.den| ≤ 1 / 2 := by
  rw [abs_eq_natAbs_div x, ← scaled_eq, significand]
  exact nearestEven_error _ (Nat.mul_pos x.den_pos (Nat.two_pow_pos _))

omit nonzero in
theorem magnitude_error_place (x : ℚ) :
    |magnitude x - (|x|)| ≤ 2 ^ lastPlace x.num.natAbs x.den / 2 := by
  have unit : (0 : ℚ) < 2 ^ lastPlace x.num.natAbs x.den := by positivity
  have scaled := mul_le_mul_of_nonneg_right (significand_error x) unit.le
  rw [← abs_of_pos unit, ← abs_mul, abs_of_pos unit, sub_mul, div_mul_cancel₀ _ unit.ne'] at scaled
  rw [magnitude]
  linarith

def halfPlace (y : ℚ) : ℚ := max (|y| * 2 ^ (-53 : ℤ)) (2 ^ (-1075 : ℤ))

theorem halfPlace_ge : (2 : ℚ) ^ lastPlace x.num.natAbs x.den / 2 ≤ halfPlace x := by
  have lead := two_zpow_exponent_le nonzero
  rw [div_eq_mul_inv, ← zpow_neg_one, ← zpow_add₀ two_ne_zero, halfPlace, lastPlace]
  rcases le_total (exponent x.num.natAbs x.den - 52) (-1074) with low | high
  · rw [max_eq_right low]
    exact le_max_right _ _
  · rw [max_eq_left high]
    refine le_max_of_le_left ?_
    calc (2 : ℚ) ^ (exponent x.num.natAbs x.den - 52 + -1)
        = 2 ^ exponent x.num.natAbs x.den * 2 ^ (-53 : ℤ) := by
          rw [← zpow_add₀ two_ne_zero]
          congr 1
          omega
      _ ≤ |x| * 2 ^ (-53 : ℤ) := mul_le_mul_of_nonneg_right lead (by positivity)

theorem magnitude_error : |magnitude x - (|x|)| ≤ halfPlace x :=
  (magnitude_error_place x).trans (halfPlace_ge nonzero)

/-- Rounding does not take a number below a power of two of the format. -/
theorem two_zpow_le_magnitude {k : ℤ} (fits : -1074 ≤ k) (reached : 2 ^ k ≤ |x|) :
    2 ^ k ≤ magnitude x := by
  have above : ∀ j : ℤ, lastPlace x.num.natAbs x.den ≤ j → (2 : ℚ) ^ j ≤ |x| →
      2 ^ j ≤ magnitude x := by
    intro j kept below
    obtain ⟨m, same⟩ := Int.eq_ofNat_of_zero_le (sub_nonneg.mpr kept)
    have unit : (0 : ℚ) < 2 ^ lastPlace x.num.natAbs x.den := by positivity
    have split : (2 : ℚ) ^ j = 2 ^ m * 2 ^ lastPlace x.num.natAbs x.den := by
      rw [← zpow_natCast, ← zpow_add₀ two_ne_zero, ← same, sub_add_cancel]
    have near := (abs_le.mp (significand_error x)).1
    have scaled : (2 : ℚ) ^ m ≤ |x| / 2 ^ lastPlace x.num.natAbs x.den := by
      rw [le_div_iff₀ unit, ← split]
      exact below
    have whole : (2 ^ m : ℕ) ≤ significand x.num.natAbs x.den := by
      have : ((2 ^ m : ℕ) : ℚ) < (significand x.num.natAbs x.den : ℚ) + 1 := by
        push_cast
        linarith
      exact Nat.lt_succ_iff.mp (by exact_mod_cast this)
    rw [split, magnitude]
    exact mul_le_mul_of_nonneg_right (by exact_mod_cast whole) unit.le
  rcases le_total (lastPlace x.num.natAbs x.den) k with kept | cut
  · exact above k kept reached
  · have order : k ≤ exponent x.num.natAbs x.den :=
      Int.lt_add_one_iff.mp
        ((zpow_lt_zpow_iff_right₀ one_lt_two).mp (reached.trans_lt (lt_two_zpow_exponent nonzero)))
    have place : lastPlace x.num.natAbs x.den ≤ exponent x.num.natAbs x.den := by
      rw [lastPlace] at cut ⊢
      omega
    exact (zpow_le_zpow_right₀ one_le_two order).trans
      (above _ place (two_zpow_exponent_le nonzero))

end Magnitude

section Bounds

def AtLeast (b : ℚ) : Double → Prop
  | finite x => b ≤ x
  | inf negative => negative = false
  | nan => False

def RoundsAbove (b r : ℚ) : Prop := ∀ x, b ≤ x → AtLeast r (ofRat x)

theorem AtLeast.mono {b c : ℚ} {x : Double} (bound : AtLeast c x) (below : b ≤ c) :
    AtLeast b x := by
  cases x with
  | finite x => exact below.trans bound
  | inf negative => exact bound
  | nan => exact bound

theorem AtLeast.lt_zero {b : ℚ} {x : Double} (bound : AtLeast b x) (positive : 0 < b) :
    lt (finite 0) x = true := by
  cases x with
  | finite x =>
    have above : 0 < x := positive.trans_le bound
    simp [lt, le, above, above.le]
  | inf negative =>
    cases bound
    rfl
  | nan => exact bound.elim

theorem ofRat_of_pos {x : ℚ} (positive : 0 < x) :
    ofRat x = if (ceiling : ℚ) ≤ magnitude x then inf false else finite (magnitude x) := by
  rw [ofRat_eq positive.ne', if_neg (not_lt.mpr positive.le),
    decide_eq_false (not_lt.mpr positive.le)]

theorem roundsAbove_zero : RoundsAbove 0 0 := by
  intro x nonneg
  rcases nonneg.eq_or_lt with rfl | positive
  · exact le_refl (0 : ℚ)
  · rw [ofRat_of_pos positive]
    split
    · rfl
    · exact magnitude_nonneg x

theorem roundsAbove_two_zpow {k : ℤ} (fits : -1074 ≤ k) : RoundsAbove (2 ^ k) (2 ^ k) := by
  intro x reached
  have positive : 0 < x := lt_of_lt_of_le (by positivity) reached
  rw [ofRat_of_pos positive]
  split
  · rfl
  · exact two_zpow_le_magnitude positive.ne' fits (by rwa [abs_of_pos positive])

theorem sub_halfPlace_mono {b x : ℚ} (below : b ≤ x) : b - halfPlace b ≤ x - halfPlace x := by
  have rate : (2 : ℚ) ^ (-53 : ℤ) ≤ 1 := by norm_num
  have nonneg : (0 : ℚ) ≤ 2 ^ (-53 : ℤ) := by positivity
  rw [halfPlace, halfPlace, sub_le_sub_iff]
  have grown : b + |x| * 2 ^ (-53 : ℤ) ≤ x + |b| * 2 ^ (-53 : ℤ) := by
    have lipschitz : |x| - |b| ≤ x - b := by
      rw [← abs_of_nonneg (sub_nonneg.mpr below)]
      exact abs_sub_abs_le_abs_sub x b
    nlinarith
  rcases le_total (|x| * (2 : ℚ) ^ (-53 : ℤ)) (2 ^ (-1075 : ℤ)) with small | large
  · rw [max_eq_right small]
    exact add_le_add below (le_max_right _ _)
  · rw [max_eq_left large]
    exact grown.trans (add_le_add le_rfl (le_max_left _ _))

theorem roundsAbove_sub_halfPlace {b : ℚ} (range : -(ceiling : ℚ) < b - halfPlace b) :
    RoundsAbove b (b - halfPlace b) := by
  intro x below
  have order := sub_halfPlace_mono below
  by_cases zero : x = 0
  · subst zero
    rw [ofRat, if_pos rfl]
    exact order.trans (sub_nonpos.mpr (le_max_of_le_right (by positivity)))
  · have error := abs_le.mp (magnitude_error zero)
    rw [ofRat_eq zero]
    rcases lt_or_ge x 0 with negative | nonneg
    · rw [abs_of_neg negative] at error
      rw [if_neg (not_le.mpr (by linarith [error.2])), if_pos negative]
      change b - halfPlace b ≤ -magnitude x
      linarith [error.2]
    · rw [abs_of_nonneg nonneg] at error
      rw [if_neg (not_lt.mpr nonneg), decide_eq_false (not_lt.mpr nonneg)]
      split
      · rfl
      · change b - halfPlace b ≤ magnitude x
        linarith [error.1]

theorem RoundsAbove.mono {b c r s : ℚ} (rounds : RoundsAbove b s) (above : b ≤ c) (below : r ≤ s) :
    RoundsAbove c r :=
  fun x reached => (rounds x (above.trans reached)).mono below

theorem halfPlace_le (y : ℚ) : halfPlace y ≤ |y| * 2 ^ (-53 : ℤ) + 2 ^ (-1075 : ℤ) :=
  max_le (le_add_of_nonneg_right (by positivity)) (le_add_of_nonneg_left (by positivity))

theorem roundsAbove_neg {c : ℚ} (nonneg : 0 ≤ c)
    (range : c + (c * 2 ^ (-53 : ℤ) + 2 ^ (-1075 : ℤ)) < ceiling) :
    RoundsAbove (-c) (-(c + (c * 2 ^ (-53 : ℤ) + 2 ^ (-1075 : ℤ)))) := by
  have error := halfPlace_le (-c)
  rw [abs_neg, abs_of_nonneg nonneg] at error
  exact (roundsAbove_sub_halfPlace (by linarith)).mono le_rfl (by linarith)

theorem ceiling_pos : (0 : ℚ) < ceiling := by
  rw [ceiling]
  positivity

theorem halfPlace_of_normal {c : ℚ} (normal : 2 ^ (-1022 : ℤ) ≤ c) :
    halfPlace c = c * 2 ^ (-53 : ℤ) := by
  have positive : 0 < c := lt_of_lt_of_le (by positivity) normal
  have split : (2 : ℚ) ^ (-1022 + -53 : ℤ) = 2 ^ (-1022 : ℤ) * 2 ^ (-53 : ℤ) :=
    zpow_add₀ two_ne_zero _ _
  rw [halfPlace, abs_of_pos positive, max_eq_left]
  calc (2 : ℚ) ^ (-1075 : ℤ) = 2 ^ (-1022 : ℤ) * 2 ^ (-53 : ℤ) := split
    _ ≤ c * 2 ^ (-53 : ℤ) := mul_le_mul_of_nonneg_right normal (by positivity)

theorem roundsAbove_pos {c : ℚ} (normal : 2 ^ (-1022 : ℤ) ≤ c) :
    RoundsAbove c (c * (1 - 2 ^ (-53 : ℤ))) := by
  have positive : 0 < c := lt_of_lt_of_le (by positivity) normal
  have part : c - halfPlace c = c * (1 - 2 ^ (-53 : ℤ)) := by
    rw [halfPlace_of_normal normal, mul_sub, mul_one]
  have kept : (0 : ℚ) ≤ 1 - 2 ^ (-53 : ℤ) := by norm_num
  rw [← part]
  apply roundsAbove_sub_halfPlace
  rw [part]
  exact (neg_lt_zero.mpr ceiling_pos).trans_le (mul_nonneg positive.le kept)

theorem ofRat_ne_nan (x : ℚ) : ofRat x ≠ nan := by
  by_cases zero : x = 0
  · simp [ofRat, zero]
  · rw [ofRat_eq zero]
    split <;> simp

theorem Exact.magnitude_eq {x : ℚ} (exact : Exact x) (positive : 0 < x) :
    magnitude x = x ∧ x < ceiling := by
  rw [Exact, ofRat_of_pos positive] at exact
  split at exact
  · cases exact
  · rename_i below
    have same := finite.inj exact
    rw [same] at below
    exact ⟨same, not_le.mp below⟩

theorem Exact.two_zpow_le {x : ℚ} (exact : Exact x) (positive : 0 < x) : 2 ^ (-1074 : ℤ) ≤ x := by
  obtain ⟨same, -⟩ := exact.magnitude_eq positive
  have place : (2 : ℚ) ^ (-1074 : ℤ) ≤ 2 ^ lastPlace x.num.natAbs x.den :=
    zpow_le_zpow_right₀ one_le_two (le_max_right _ _)
  have some : 1 ≤ significand x.num.natAbs x.den := by
    rw [Nat.one_le_iff_ne_zero]
    intro none
    rw [magnitude, none, Nat.cast_zero, zero_mul] at same
    exact positive.ne same
  rw [← same, magnitude]
  calc (2 : ℚ) ^ (-1074 : ℤ) ≤ 1 * 2 ^ lastPlace x.num.natAbs x.den := by rwa [one_mul]
    _ ≤ significand x.num.natAbs x.den * 2 ^ lastPlace x.num.natAbs x.den :=
      mul_le_mul_of_nonneg_right (by exact_mod_cast some) (by positivity)

theorem pyFloat_bounds {n : ℕ} {x : Double} (positive : 1 ≤ n) (converted : pyFloat n = .ok x) :
    ∃ y : ℚ, x = finite y ∧ 1 ≤ y ∧ y ≤ n * (1 + 2 ^ (-53 : ℤ)) := by
  have some : (1 : ℚ) ≤ (n : ℤ) := by exact_mod_cast positive
  have above : (0 : ℚ) < (n : ℤ) := lt_of_lt_of_le one_pos some
  have floor : (2 : ℚ) ^ (0 : ℤ) ≤ |((n : ℤ) : ℚ)| := by rwa [zpow_zero, abs_of_pos above]
  have error := (abs_le.mp (magnitude_error above.ne')).2
  rw [halfPlace_of_normal ((zpow_le_one_of_nonpos₀ one_le_two (by decide)).trans some),
    abs_of_pos above] at error
  rw [pyFloat, ofRat_of_pos above] at converted
  split at converted
  · rename_i y same
    cases converted
    split at same
    · cases same
    · cases same
      refine ⟨_, rfl, ?_, ?_⟩
      · have reached := two_zpow_le_magnitude above.ne' (by decide) floor
        rwa [zpow_zero] at reached
      · push_cast at error ⊢
        linarith
  · cases converted

variable {b c r : ℚ} {x y : Double}

theorem AtLeast.add (bound : AtLeast b x) (rounds : RoundsAbove (c + b) r) :
    AtLeast r (Double.add (finite c) x) := by
  cases x with
  | finite x => exact rounds _ (add_le_add_right bound c)
  | inf negative => exact bound
  | nan => exact bound.elim

theorem AtLeast.sub (bound : AtLeast b x) (rounds : RoundsAbove (b - c) r) :
    AtLeast r (Double.sub x (finite c)) := by
  cases x with
  | finite x =>
    rw [Double.sub, neg, Double.add, ← sub_eq_add_neg]
    exact rounds _ (sub_le_sub_right bound c)
  | inf negative => exact bound
  | nan => exact bound.elim

theorem scaleInf_of_pos {x : ℚ} (positive : 0 < x) (negative : Bool) :
    scaleInf negative x = inf negative := by
  rw [scaleInf, if_neg positive.ne', decide_eq_false (not_lt.mpr positive.le), Bool.bne_false]

theorem AtLeast.mul (bound : AtLeast b x) (positive : 0 < c) (rounds : RoundsAbove (b * c) r) :
    AtLeast r (Double.mul x (finite c)) := by
  cases x with
  | finite x => exact rounds _ (mul_le_mul_of_nonneg_right bound positive.le)
  | inf negative =>
    rw [Double.mul, scaleInf_of_pos positive]
    exact bound
  | nan => exact bound.elim

theorem AtLeast.div (bound : AtLeast b x) (positive : 0 < c) (rounds : RoundsAbove (b / c) r) :
    AtLeast r (Double.div x (finite c)) := by
  cases x with
  | finite x => exact rounds _ (div_le_div_of_nonneg_right bound positive.le)
  | inf negative =>
    rw [Double.div, scaleInf_of_pos positive]
    exact bound
  | nan => exact bound.elim

theorem AtLeast.mul_pos (left : AtLeast b x) (right : AtLeast c y) (positive : 0 < b)
    (factor : 0 < c) (rounds : RoundsAbove (b * c) r) : AtLeast r (Double.mul x y) := by
  cases y with
  | finite y => exact left.mul (factor.trans_le right) (fun z above => rounds z (le_trans
      (mul_le_mul_of_nonneg_left right positive.le) above))
  | inf negative =>
    cases right
    cases x with
    | finite x =>
      rw [Double.mul, scaleInf_of_pos (positive.trans_le left)]
      rfl
    | inf negative =>
      cases left
      rfl
    | nan => exact left.elim
  | nan => exact right.elim

theorem AtLeast.maximum (bound : AtLeast b x) (low : ℚ) :
    AtLeast (max b low) (Double.maximum x (finite low)) := by
  cases x with
  | finite x =>
    simp only [Double.maximum, le, decide_eq_true_eq]
    split
    · rename_i smaller
      exact max_le (le_trans bound smaller) le_rfl
    · rename_i greater
      exact max_le bound (not_le.mp greater).le
  | inf negative =>
    cases bound
    rfl
  | nan => exact bound.elim

theorem atLeast_maximum (known : x ≠ nan) (low : ℚ) :
    AtLeast low (Double.maximum x (finite low)) := by
  cases x with
  | finite x =>
    have here : AtLeast x (finite x) := le_refl x
    exact (here.maximum low).mono (le_max_right _ _)
  | inf negative => cases negative <;> simp [Double.maximum, le, AtLeast]
  | nan => exact absurd rfl known

theorem AtLeast.minimum (bound : AtLeast b x) (high : ℚ) :
    AtLeast (min b high) (Double.minimum x (finite high)) := by
  cases x with
  | finite x =>
    simp only [Double.minimum, le, decide_eq_true_eq]
    split
    · exact (min_le_left _ _).trans bound
    · exact min_le_right _ _
  | inf negative =>
    cases bound
    exact min_le_right _ _
  | nan => exact bound.elim

end Bounds

section FloorDivision

theorem ofRat_near {x : ℚ} (normal : 2 ^ (-1022 : ℤ) ≤ x) (fits : 2 * x < ceiling) :
    ∃ y, ofRat x = finite y ∧ |y - x| ≤ x * 2 ^ (-53 : ℤ) := by
  have positive : 0 < x := lt_of_lt_of_le (by positivity) normal
  have error := magnitude_error positive.ne'
  rw [halfPlace_of_normal normal, abs_of_pos positive] at error
  have rate : x * 2 ^ (-53 : ℤ) ≤ x * 1 := mul_le_mul_of_nonneg_left (by norm_num) positive.le
  refine ⟨magnitude x, ?_, error⟩
  rw [ofRat_of_pos positive, if_neg (not_le.mpr _)]
  linarith [(abs_le.mp error).2]

theorem quotient_near {m : ℕ} {y : ℚ} (some : 1 ≤ m) (positive : 0 < y) (visible : 1 / 2 ≤ m * y)
    (product : 2 * (m * y) < ceiling) (fits : 4 * (m : ℚ) < ceiling) :
    ∃ d, (ofRat (m * y)).div (finite y) = finite d ∧ |d - m| ≤ m * 2 ^ (-51 : ℤ) := by
  have half : (2 : ℚ) ^ (-1022 : ℤ) ≤ 1 / 2 := by
    rw [one_div, ← zpow_neg_one]
    exact zpow_le_zpow_right₀ one_le_two (by decide)
  have least : (1 : ℚ) ≤ m := by exact_mod_cast some
  obtain ⟨p, rounded, error⟩ := ofRat_near (half.trans visible) product
  have scaled : |p / y - m| ≤ m * 2 ^ (-53 : ℤ) := by
    rw [div_sub' positive.ne', abs_div, abs_of_pos positive, div_le_iff₀ positive, mul_comm y,
      mul_right_comm]
    exact error
  obtain ⟨low, high⟩ := abs_le.mp scaled
  have tenth : (m : ℚ) * 2 ^ (-53 : ℤ) ≤ m * (1 / 2) :=
    mul_le_mul_of_nonneg_left (by norm_num) (by positivity)
  obtain ⟨d, divided, last⟩ := ofRat_near (x := p / y) (half.trans (by linarith)) (by linarith)
  refine ⟨d, by rw [rounded, div, divided], ?_⟩
  have twice : p / y * 2 ^ (-53 : ℤ) ≤ 2 * m * 2 ^ (-53 : ℤ) :=
    mul_le_mul_of_nonneg_right (by linarith) (by positivity)
  have sum := (abs_sub_le d (p / y) m).trans (add_le_add (last.trans twice) scaled)
  refine sum.trans ?_
  norm_num
  linarith

theorem tdiv_of_nonneg {x : ℚ} (nonneg : 0 ≤ x) : x.num.tdiv x.den = ⌊x⌋ := by
  rw [Rat.floor_def', Int.tdiv_eq_ediv_of_nonneg (Rat.num_nonneg.mpr nonneg)]

theorem pyInt_ofRat_pos {x : ℚ} {k : ℤ} (converted : pyInt (ofRat x) = .ok k) (some : 0 < k) :
    1 / 2 ≤ x ∧ k = ⌊magnitude x⌋ := by
  have nonzero : x ≠ 0 := by
    rintro rfl
    cases Except.ok.inj converted
    exact absurd some (by decide)
  have positive : 0 < x := by
    by_contra nonpos
    have negative : x < 0 := lt_of_le_of_ne (not_lt.mp nonpos) nonzero
    rw [ofRat_eq nonzero, if_pos negative] at converted
    split at converted
    · cases converted
    · rw [pyInt, Rat.num_neg_eq_neg_num, Rat.neg_den, Int.neg_tdiv,
        tdiv_of_nonneg (magnitude_nonneg x)] at converted
      cases converted
      have := Int.floor_nonneg.mpr (magnitude_nonneg x)
      omega
  have whole : k = ⌊magnitude x⌋ := by
    rw [ofRat_of_pos positive] at converted
    split at converted
    · cases converted
    · rw [pyInt, tdiv_of_nonneg (magnitude_nonneg x)] at converted
      exact (Except.ok.inj converted).symm
  refine ⟨?_, whole⟩
  by_contra small
  have error := (abs_le.mp (magnitude_error nonzero)).2
  have rest := halfPlace_le x
  rw [abs_of_pos positive] at error rest
  have tiny : (2 : ℚ) ^ (-1075 : ℤ) ≤ 2 ^ (-2 : ℤ) := zpow_le_zpow_right₀ one_le_two (by decide)
  have scaled : x * 2 ^ (-53 : ℤ) ≤ 1 / 2 * 2 ^ (-53 : ℤ) :=
    mul_le_mul_of_nonneg_right (not_le.mp small).le (by positivity)
  have reached : (1 : ℚ) ≤ magnitude x := Int.floor_pos.mp (whole ▸ some)
  generalize (2 : ℚ) ^ (-1075 : ℤ) = limit at rest tiny
  norm_num at tiny scaled rest small
  linarith

theorem floorQuotient_eq {n : ℕ} {y d : ℚ} (positive : 0 < y)
    (divided : (ofRat (⌊(n : ℚ) / y⌋₊ * y)).div (finite y) = finite d) (nonzero : d ≠ 0) :
    floorQuotient n y = if lt (finite (1 / 2)) (ofRat (d - ⌊d⌋)) then ofRat (⌊d⌋ + 1)
      else finite ⌊d⌋ := by
  have nonneg : (0 : ℚ) ≤ n / y := by positivity
  have whole : (((n : ℚ) / y).num.tdiv ((n : ℚ) / y).den : ℚ) = ⌊(n : ℚ) / y⌋₊ := by
    rw [tdiv_of_nonneg nonneg, ← Int.natCast_floor_eq_floor nonneg]
    rfl
  have below : ¬((n : ℚ) - ⌊(n : ℚ) / y⌋₊ * y < 0) := by
    rw [not_lt, sub_nonneg, ← le_div_iff₀ positive]
    exact Nat.floor_le nonneg
  have exact_part : (n : ℚ) + -(n - ⌊(n : ℚ) / y⌋₊ * y) = ⌊(n : ℚ) / y⌋₊ * y := by
    rw [← sub_eq_add_neg, sub_sub_cancel]
  have nonzero' : finite d ≠ finite 0 := fun zero => nonzero (finite.inj zero)
  simp only [floorQuotient, whole, below, not_lt.mpr positive.le, Double.sub, neg, add,
    exact_part, divided, not_true_eq_false, and_false, if_false, if_neg nonzero',
    floor, ← sub_eq_add_neg]

theorem floorQuotient_zero {n : ℕ} {y : ℚ} (positive : 0 < y) (none : ⌊(n : ℚ) / y⌋₊ = 0) :
    floorQuotient n y = finite 0 := by
  have nonneg : (0 : ℚ) ≤ n / y := by positivity
  have whole : ((n : ℚ) / y).num.tdiv ((n : ℚ) / y).den = 0 := by
    rw [tdiv_of_nonneg nonneg, ← Int.natCast_floor_eq_floor nonneg, none]
    rfl
  have below : ¬((n : ℚ) < 0) := not_lt.mpr (Nat.cast_nonneg n)
  have zero : ofRat 0 = finite 0 := if_pos rfl
  simp only [floorQuotient, whole, Int.cast_zero, zero_mul, sub_zero, below, not_lt.mpr positive.le,
    Double.sub, neg, add, ← sub_eq_add_neg, sub_self, zero, div, zero_div, not_true_eq_false,
    and_false, if_false, if_true]

theorem fract_small {z : ℚ} (nonneg : 0 ≤ z) (small : z ≤ 1 / 4) :
    lt (finite (1 / 2)) (ofRat z) = false := by
  rcases nonneg.eq_or_lt with rfl | positive
  · decide +kernel
  · have error := (abs_le.mp (magnitude_error positive.ne')).2
    have rest := halfPlace_le z
    have tiny : (2 : ℚ) ^ (-1075 : ℤ) ≤ 2 ^ (-3 : ℤ) := zpow_le_zpow_right₀ one_le_two (by decide)
    have scaled : z * 2 ^ (-53 : ℤ) ≤ 1 / 4 * 2 ^ (-53 : ℤ) :=
      mul_le_mul_of_nonneg_right small (by positivity)
    rw [abs_of_pos positive] at error rest
    have below : magnitude z ≤ 1 / 2 := by
      generalize (2 : ℚ) ^ (-1075 : ℤ) = limit at rest tiny
      norm_num at tiny scaled rest
      linarith
    have room : ¬(ceiling : ℚ) ≤ magnitude z := by
      have := lt_ceiling
      have some : (1 : ℚ) ≤ ceiling := by exact_mod_cast (by omega : 1 ≤ ceiling)
      linarith
    rw [ofRat_of_pos positive, if_neg room]
    simp only [lt, le, decide_eq_true below, Bool.not_true, Bool.and_false]

theorem fract_large {z : ℚ} (large : 3 / 4 ≤ z) (small : z < 1) :
    lt (finite (1 / 2)) (ofRat z) = true := by
  have half : (2 : ℚ) ^ (-1022 : ℤ) ≤ 1 / 2 := by
    rw [one_div, ← zpow_neg_one]
    exact zpow_le_zpow_right₀ one_le_two (by decide)
  have room : (2 : ℚ) ≤ ceiling := by
    have := lt_ceiling
    exact_mod_cast (by omega : 2 ≤ ceiling)
  obtain ⟨y, rounded, error⟩ := ofRat_near (x := z) (half.trans (by linarith)) (by linarith)
  have scaled : z * 2 ^ (-53 : ℤ) ≤ 1 / 8 := by
    have : z * 2 ^ (-53 : ℤ) ≤ 1 * 2 ^ (-53 : ℤ) :=
      mul_le_mul_of_nonneg_right small.le (by positivity)
    norm_num at this ⊢
    linarith
  have above : 1 / 2 < y := by linarith [(abs_le.mp (error.trans scaled)).1]
  rw [rounded]
  simp only [lt, le, decide_eq_true above.le, decide_eq_false (not_le.mpr above), Bool.not_false,
    Bool.and_true]

theorem pyInt_finite (k : ℤ) : pyInt (finite k) = .ok k := by simp [pyInt]

/-- A quotient next to an integer that its last places can tell from its neighbours. -/
theorem floor_near {m : ℕ} {d : ℚ} (little : m < 2 ^ 49) (near : |d - m| ≤ 1 / 4) :
    (if lt (finite (1 / 2)) (ofRat (d - ⌊d⌋)) then ofRat (⌊d⌋ + 1) else finite ⌊d⌋) =
      finite (m : ℤ) := by
  obtain ⟨low, high⟩ := abs_le.mp near
  rcases le_or_gt (m : ℚ) d with above | below
  · have whole : ⌊d⌋ = (m : ℤ) :=
      Int.floor_eq_iff.mpr ⟨by exact_mod_cast above, by push_cast; linarith⟩
    rw [whole, Int.cast_natCast, fract_small (by linarith) (by linarith), if_neg Bool.false_ne_true]
  · have whole : ⌊d⌋ = (m : ℤ) - 1 :=
      Int.floor_eq_iff.mpr ⟨by push_cast; linarith, by push_cast; linarith⟩
    rw [whole, Int.cast_sub, Int.cast_natCast, Int.cast_one,
      fract_large (by linarith) (by linarith), if_pos rfl, sub_add_cancel, ← Int.cast_natCast,
      ofRat_int_small (by omega)]

theorem floor_large {d : ℚ} (low : 2 ^ 49 - 1 ≤ d) (high : d + 1 ≤ 2 ^ 101) :
    ∃ stop : ℤ, pyInt (if lt (finite (1 / 2)) (ofRat (d - ⌊d⌋)) then ofRat (⌊d⌋ + 1)
      else finite ⌊d⌋) = .ok stop ∧ 2 ^ 49 - 1 ≤ stop := by
  have floored : (2 : ℤ) ^ 49 - 1 ≤ ⌊d⌋ := Int.le_floor.mpr (by exact_mod_cast low)
  split
  · have limit : (2 : ℚ) ^ 110 < ceiling := by
      rw [ceiling, Nat.cast_pow]
      exact pow_lt_pow_right₀ one_lt_two (by decide)
    have normal : (2 : ℚ) ^ (-1022 : ℤ) ≤ 1 := zpow_le_one_of_nonpos₀ one_le_two (by decide)
    have next : (2 : ℚ) ^ 49 ≤ ⌊d⌋ + 1 := by exact_mod_cast (by omega : (2 : ℤ) ^ 49 ≤ ⌊d⌋ + 1)
    obtain ⟨q, rounded, -⟩ := ofRat_near (x := (⌊d⌋ : ℚ) + 1) (normal.trans (by linarith))
      (by linarith [Int.floor_le d])
    have kept : AtLeast (2 ^ (49 : ℤ)) (ofRat (⌊d⌋ + 1)) :=
      roundsAbove_two_zpow (by decide) _ next
    rw [rounded] at kept ⊢
    have reached : (2 : ℚ) ^ 49 ≤ q := kept
    have above : (2 : ℤ) ^ 49 ≤ ⌊q⌋ := Int.le_floor.mpr (by exact_mod_cast reached)
    refine ⟨⌊q⌋, ?_, by omega⟩
    rw [pyInt, tdiv_of_nonneg (le_trans (by positivity) reached)]
  · exact ⟨⌊d⌋, pyInt_finite _, floored⟩

/-- The quotient of fewer than `2 ^ 49` rows by a factor is their exact one, as far as a slice of
the rows can tell. -/
theorem floorDiv_nat {n : ℕ} {y : ℚ} (positive : 0 < y) (few : n < 2 ^ 49)
    (bounded : (n : ℚ) / y < 2 ^ 100) :
    ∃ stop : ℤ, (do pyInt (← floorDiv (finite n) (finite y))) = .ok stop ∧ 0 ≤ stop ∧
      min stop.toNat n = min ⌊(n : ℚ) / y⌋₊ n := by
  have nonzero : finite y ≠ finite 0 := fun zero => positive.ne' (finite.inj zero)
  have nonneg : (0 : ℚ) ≤ n / y := by positivity
  have limit : (2 : ℚ) ^ 110 < ceiling := by
    rw [ceiling, Nat.cast_pow]
    exact pow_lt_pow_right₀ one_lt_two (by decide)
  have divided : (do pyInt (← floorDiv (finite n) (finite y))) = pyInt (floorQuotient n y) := by
    rw [floorDiv, if_neg nonzero]
    rfl
  rw [divided]
  have lower := Nat.floor_le nonneg
  generalize number : ⌊(n : ℚ) / y⌋₊ = m at lower ⊢
  rcases Nat.eq_zero_or_pos m with rfl | some
  · refine ⟨0, ?_, le_rfl, rfl⟩
    rw [floorQuotient_zero positive number]
    exact pyInt_finite 0
  · have least : (1 : ℚ) ≤ m := by exact_mod_cast some
    have upper := Nat.lt_floor_add_one ((n : ℚ) / y)
    have largest : (m : ℚ) < 2 ^ 100 := lt_of_le_of_lt lower bounded
    rw [le_div_iff₀ positive] at lower
    rw [number, div_lt_iff₀ positive] at upper
    have things : (1 : ℚ) ≤ n := by
      have : (0 : ℚ) < n := lt_of_lt_of_le (by positivity) lower
      exact_mod_cast this
    have visible : 1 / 2 ≤ m * y := by nlinarith
    have size : (n : ℚ) < 2 ^ 49 := by exact_mod_cast few
    obtain ⟨d, quotient, error⟩ := quotient_near some positive visible (by linarith) (by linarith)
    have rate : (m : ℚ) * 2 ^ (-51 : ℤ) ≤ m * (1 / 2) :=
      mul_le_mul_of_nonneg_left (by norm_num) (by positivity)
    have nonzero_quotient : d ≠ 0 := by
      rintro rfl
      linarith [(abs_le.mp (error.trans rate)).1]
    rw [← number] at quotient
    rw [floorQuotient_eq positive quotient nonzero_quotient]
    rcases Nat.lt_or_ge m (2 ^ 49) with little | much
    · have near : |d - m| ≤ 1 / 4 := by
        refine error.trans ?_
        have : (m : ℚ) * 2 ^ (-51 : ℤ) ≤ 2 ^ 49 * 2 ^ (-51 : ℤ) :=
          mul_le_mul_of_nonneg_right (by exact_mod_cast little.le) (by positivity)
        norm_num at this ⊢
        exact this
      rw [floor_near little near]
      exact ⟨m, pyInt_finite m, Int.natCast_nonneg m, by rw [Int.toNat_natCast]⟩
    · have many : (2 : ℚ) ^ 49 ≤ m := by exact_mod_cast much
      have low : (2 : ℚ) ^ 49 - 1 ≤ d := by
        have scaled : (2 : ℚ) ^ 49 * (1 - 2 ^ (-51 : ℤ)) ≤ m * (1 - 2 ^ (-51 : ℤ)) :=
          mul_le_mul_of_nonneg_right many (by norm_num)
        have := (abs_le.mp error).1
        norm_num at scaled this ⊢
        linarith
      obtain ⟨stop, run, large⟩ :=
        floor_large low (by linarith [(abs_le.mp (error.trans rate)).2])
      exact ⟨stop, run, by omega, by omega⟩

end FloorDivision

end Verl.Double
