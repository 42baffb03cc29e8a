import Mathlib.Algebra.Order.Field.Rat
import Mathlib.Data.Nat.Log
import Mathlib.Tactic.Linarith
import Mathlib.Tactic.NormNum
import Mathlib.Tactic.Positivity

/-! Python's `float`: binary64 with rounding to the nearest value, ties to even, and what becomes of
integers on the way through it. -/
namespace Verl

inductive Double where
  | finite (x : ℚ)
  | inf (negative : Bool)
  | nan
  deriving DecidableEq

namespace Double

def nearestEven (a d : ℕ) : ℕ :=
  if d < 2 * (a % d) ∨ (2 * (a % d) = d ∧ a / d % 2 = 1) then a / d + 1 else a / d

def exponent (num den : ℕ) : ℤ :=
  let k : ℤ := num.log2 - den.log2
  if den * 2 ^ k.toNat ≤ num * 2 ^ (-k).toNat then k else k - 1

def lastPlace (num den : ℕ) : ℤ := max (exponent num den - 52) (-1074)

def significand (num den : ℕ) : ℕ :=
  let e := lastPlace num den
  nearestEven (num * 2 ^ (-e).toNat) (den * 2 ^ e.toNat)

def ceiling : ℕ := 2 ^ 1024

def ofRat (x : ℚ) : Double :=
  if x = 0 then finite 0
  else
    let y : ℚ := significand x.num.natAbs x.den * 2 ^ lastPlace x.num.natAbs x.den
    if ceiling ≤ y then inf (decide (x < 0)) else finite (if x < 0 then -y else y)

def round? : Double → Option ℤ
  | finite x =>
    some (if x < 0 then -nearestEven x.num.natAbs x.den else nearestEven x.num.natAbs x.den)
  | _ => none

def int? : Double → Option ℤ
  | finite x => some (x.num.tdiv x.den)
  | _ => none

/-- `x - n` for an integer `n`, with `none` where `n` is too large for a float. -/
def subInt? (x : Double) (n : ℤ) : Option Double :=
  match x, ofRat n with
  | finite a, finite b => some (ofRat (a - b))
  | inf negative, finite _ => some (inf negative)
  | nan, finite _ => some nan
  | _, _ => none

def abs : Double → Double
  | finite x => finite |x|
  | inf _ => inf false
  | nan => nan

def le : Double → Double → Bool
  | finite x, finite y => x ≤ y
  | finite _, inf negative => !negative
  | inf negative, finite _ => negative
  | inf a, inf b => a || !b
  | _, _ => false

section Nearest

theorem nearestEven_one (a : ℕ) : nearestEven a 1 = a := by
  rw [nearestEven, Nat.mod_one, Nat.div_one, if_neg (by omega)]

theorem nearestEven_mul (a : ℕ) {d : ℕ} (positive : 0 < d) : nearestEven (a * d) d = a := by
  rw [nearestEven, Nat.mul_mod_left, Nat.mul_div_cancel a positive, if_neg (by omega)]

theorem div_le_nearestEven (a d : ℕ) : a / d ≤ nearestEven a d := by
  rw [nearestEven]
  split <;> omega

theorem nearestEven_le (a d : ℕ) : nearestEven a d ≤ a / d + 1 := by
  rw [nearestEven]
  split <;> omega

end Nearest

section Integers

theorem lt_ceiling : 2 ^ 53 < ceiling := by
  rw [ceiling, Nat.pow_lt_pow_iff_right Nat.one_lt_two]
  decide

def place (n : ℕ) : ℕ := n.log2 - 52

def roundNat (n : ℕ) : ℕ := nearestEven n (2 ^ place n) * 2 ^ place n

theorem roundNat_small {n : ℕ} (small : n < 2 ^ 53) : roundNat n = n := by
  have short : place n = 0 := by
    rcases Nat.eq_zero_or_pos n with rfl | positive
    · rfl
    · have := (Nat.log2_lt positive.ne').mpr small
      rw [place]
      omega
  rw [roundNat, short, pow_zero, nearestEven_one, mul_one]

theorem log2_large {n : ℕ} (large : 2 ^ 53 ≤ n) : n.log2 = 52 + place n ∧ 0 < place n := by
  have positive : n ≠ 0 := by omega
  have := (Nat.le_log2 positive).mpr large
  rw [place]
  omega

theorem nearestEven_place {n : ℕ} (large : 2 ^ 53 ≤ n) :
    2 ^ 52 ≤ nearestEven n (2 ^ place n) ∧ nearestEven n (2 ^ place n) ≤ 2 ^ 53 := by
  have positive : n ≠ 0 := by omega
  obtain ⟨bits, -⟩ := log2_large large
  have unit : 0 < 2 ^ place n := Nat.two_pow_pos _
  have low : 2 ^ 52 ≤ n / 2 ^ place n := by
    rw [Nat.le_div_iff_mul_le unit, ← pow_add, ← bits]
    exact Nat.log2_self_le positive
  have high : n / 2 ^ place n < 2 ^ 53 := by
    rw [Nat.div_lt_iff_lt_mul unit, ← pow_add, show 53 + place n = n.log2 + 1 by omega]
    exact Nat.lt_log2_self
  exact ⟨low.trans (div_le_nearestEven _ _), (nearestEven_le _ _).trans high⟩

theorem roundNat_large {n : ℕ} (large : 2 ^ 53 ≤ n) : 2 ^ 53 ≤ roundNat n := by
  obtain ⟨low, -⟩ := nearestEven_place large
  have two : 2 ^ 1 ≤ 2 ^ place n := Nat.pow_le_pow_right (by decide) (log2_large large).2
  calc 2 ^ 53 = 2 ^ 52 * 2 ^ 1 := by norm_num
    _ ≤ roundNat n := Nat.mul_le_mul low two

theorem roundNat_roundNat (n : ℕ) : roundNat (roundNat n) = roundNat n := by
  rcases Nat.lt_or_ge n (2 ^ 53) with small | large
  · rw [roundNat_small small, roundNat_small small]
  · obtain ⟨low, high⟩ := nearestEven_place large
    have unit : 0 < 2 ^ place n := Nat.two_pow_pos _
    rcases Nat.lt_or_ge (nearestEven n (2 ^ place n)) (2 ^ 53) with fits | full
    · have bits : (roundNat n).log2 = 52 + place n := by
        rw [Nat.log2_eq_iff (by rw [roundNat]; positivity), roundNat, pow_add,
          show 52 + place n + 1 = 53 + place n by omega, pow_add]
        exact ⟨Nat.mul_le_mul_right _ low, Nat.mul_lt_mul_of_pos_right fits unit⟩
      have same : place (roundNat n) = place n := by
        rw [place, bits]
        omega
      rw [roundNat, same]
      nth_rewrite 1 [roundNat]
      rw [nearestEven_mul _ unit, roundNat]
    · have power : roundNat n = 2 ^ (53 + place n) := by
        rw [roundNat, le_antisymm high full, pow_add]
      have next : place (2 ^ (53 + place n)) = place n + 1 := by
        rw [place, Nat.log2_two_pow]
        omega
      have cut : 2 ^ (53 + place n) = 2 ^ 52 * 2 ^ (place n + 1) := by
        rw [← pow_add]
        congr 1
        omega
      rw [power, roundNat, next]
      nth_rewrite 1 [cut]
      rw [nearestEven_mul _ (Nat.two_pow_pos _), ← cut]

theorem lastPlace_one {n : ℕ} (positive : n ≠ 0) : lastPlace n 1 = (n.log2 : ℤ) - 52 := by
  have least := Nat.log2_self_le positive
  have one : Nat.log2 1 = 0 := by decide
  have lead : exponent n 1 = n.log2 := by simp [exponent, one, least]
  rw [lastPlace, lead]
  omega

theorem significand_one {n : ℕ} (positive : n ≠ 0) :
    (significand n 1 : ℚ) * 2 ^ lastPlace n 1 = roundNat n := by
  rw [significand, lastPlace_one positive]
  rcases Nat.lt_or_ge n (2 ^ 53) with small | large
  · have short := (Nat.log2_lt positive).mpr small
    have down : (-((n.log2 : ℤ) - 52)).toNat = 52 - n.log2 := by omega
    have up : ((n.log2 : ℤ) - 52).toNat = 0 := by omega
    have back : (n.log2 : ℤ) - 52 = -((52 - n.log2 : ℕ) : ℤ) := by omega
    rw [down, up, pow_zero, mul_one, nearestEven_one, roundNat_small small, back, zpow_neg,
      zpow_natCast, Nat.cast_mul, Nat.cast_pow, Nat.cast_ofNat, mul_assoc,
      mul_inv_cancel₀ (by positivity), mul_one]
  · obtain ⟨bits, -⟩ := log2_large large
    have down : (-((n.log2 : ℤ) - 52)).toNat = 0 := by omega
    have up : ((n.log2 : ℤ) - 52).toNat = place n := by omega
    have here : (n.log2 : ℤ) - 52 = (place n : ℤ) := by omega
    rw [down, up, pow_zero, mul_one, one_mul, here, zpow_natCast, roundNat, Nat.cast_mul,
      Nat.cast_pow, Nat.cast_ofNat]

def roundInt (n : ℤ) : ℤ := if n < 0 then -roundNat n.natAbs else roundNat n.natAbs

theorem ofRat_int (n : ℤ) :
    ofRat n = if ceiling ≤ roundNat n.natAbs then inf (decide (n < 0))
      else finite (roundInt n) := by
  by_cases zero : n = 0
  · subst zero
    rw [Int.natAbs_zero, roundNat_small (by decide),
      if_neg (Nat.not_le.mpr (Nat.zero_lt_of_lt lt_ceiling))]
    rfl
  · have nonzero : (n : ℚ) ≠ 0 := by exact_mod_cast zero
    have negative : (n : ℚ) < 0 ↔ n < 0 := by exact_mod_cast Iff.rfl
    have overflow : (ceiling : ℚ) ≤ (roundNat n.natAbs : ℚ) ↔ ceiling ≤ roundNat n.natAbs := by
      exact_mod_cast Iff.rfl
    rw [ofRat, if_neg nonzero, Rat.num_intCast, Rat.den_intCast,
      significand_one (Int.natAbs_ne_zero.mpr zero)]
    simp only [overflow, negative, roundInt]
    split
    · rfl
    · congr 1
      split <;> push_cast <;> rfl

theorem natAbs_roundInt (n : ℤ) : (roundInt n).natAbs = roundNat n.natAbs := by
  rw [roundInt]
  split
  · rw [Int.natAbs_neg, Int.natAbs_natCast]
  · rw [Int.natAbs_natCast]

theorem roundInt_roundInt (n : ℤ) : roundInt (roundInt n) = roundInt n := by
  rw [roundInt, natAbs_roundInt, roundNat_roundNat]
  rw [roundInt]
  split <;> split <;> omega

theorem ofRat_int_cases (n : ℤ) :
    (∃ k : ℤ, ofRat n = finite k ∧ ofRat k = finite k ∧ k = roundInt n) ∨ ∃ negative,
    ofRat n = inf negative := by
  rw [ofRat_int]
  split
  · exact .inr ⟨_, rfl⟩
  · rename_i fits
    refine .inl ⟨roundInt n, rfl, ?_, rfl⟩
    rw [ofRat_int, natAbs_roundInt, roundNat_roundNat, if_neg fits, roundInt_roundInt]

theorem ofRat_int_small {n : ℤ} (small : n.natAbs < 2 ^ 53) : ofRat n = finite n := by
  have least : roundNat n.natAbs < ceiling := by
    rw [roundNat_small small]
    exact small.trans lt_ceiling
  rw [ofRat_int, if_neg (by omega), roundInt, roundNat_small small]
  congr 2
  split <;> omega

theorem eq_of_ofRat_int {m n : ℤ} (small : m.natAbs < 2 ^ 53) (same : ofRat m = ofRat n) :
    m = n := by
  rcases Nat.lt_or_ge n.natAbs (2 ^ 53) with smallN | large
  · rw [ofRat_int_small small, ofRat_int_small smallN] at same
    exact_mod_cast finite.inj same
  · rw [ofRat_int_small small, ofRat_int] at same
    split at same
    · cases same
    · have value : m = roundInt n := by exact_mod_cast finite.inj same
      have grown := roundNat_large large
      have size := natAbs_roundInt n
      rw [← value] at size
      omega

end Integers

section Tests

theorem round?_int (k : ℤ) : round? (finite k) = some k := by
  have negative : (k : ℚ) < 0 ↔ k < 0 := by exact_mod_cast Iff.rfl
  simp only [round?, Rat.num_intCast, Rat.den_intCast, nearestEven_one, negative, Option.some.injEq]
  split <;> omega

theorem int?_int (k : ℤ) : int? (finite k) = some k := by
  simp [int?]

theorem ofRat_nonneg {x : ℚ} (nonneg : 0 ≤ x) : le (finite 0) (ofRat x) = true := by
  have positive : ¬x < 0 := not_lt.mpr nonneg
  rw [ofRat]
  split
  · simp [le]
  · simp only [decide_eq_false positive]
    split
    · rfl
    · simp only [le, decide_eq_true_eq]
      exact mul_nonneg (Nat.cast_nonneg _) (zpow_nonneg (by norm_num) _)

end Tests

end Double

end Verl
