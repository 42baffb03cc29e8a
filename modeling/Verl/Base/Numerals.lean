import Verl.Base.Binary64
import Verl.Base.Replace
import Verl.Base.Strings

/-! `str` and `int` on integers of either sign, and `float` of a text. -/
namespace Verl.Text

def ofInt : Int → Text
  | .ofNat n => ofNat n
  | .negSucc n => '-' :: ofNat (n + 1)

/-- Digits with single underscores between them. The digits of other scripts are left out. -/
def digitRun (text : Text) : Option Nat :=
  if (splitOn ['_'] text).all (fun run => run ≠ [] && run.all Char.isDigit) then
    some (Nat.ofDigitChars 10 (text.filter Char.isDigit) 0)
  else none

def int? (text : Text) : Option Int :=
  match strip text with
  | '-' :: run => (digitRun run).map (fun n => -(n : Int))
  | '+' :: run => (digitRun run).map (fun n => (n : Int))
  | run => (digitRun run).map (fun n => (n : Int))

/-- The digits before or behind the point, which may be missing. -/
def digitsOrNone (text : Text) : Option Text :=
  if text = [] then some [] else (digitRun text).map (fun _ => text.filter Char.isDigit)

/-- The exponent behind an `e`, 0 where there is none. -/
def exponent : Text → Option Int
  | [] => some 0
  | _ :: '-' :: run => (digitRun run).map (fun n => -(n : Int))
  | _ :: '+' :: run => (digitRun run).map (fun n => (n : Int))
  | _ :: run => (digitRun run).map (fun n => (n : Int))

def decimal (text : Text) : Option ℚ := do
  let mantissa := text.takeWhile (fun c => c ≠ 'e' && c ≠ 'E')
  let exponent ← exponent (text.dropWhile (fun c => c ≠ 'e' && c ≠ 'E'))
  let whole ← digitsOrNone (mantissa.takeWhile (· ≠ '.'))
  let fraction ← digitsOrNone ((mantissa.dropWhile (· ≠ '.')).drop 1)
  if whole ++ fraction = [] then none
  else some (Nat.ofDigitChars 10 (whole ++ fraction) 0 * (10 : ℚ) ^ (exponent - fraction.length))

def unsignedFloat (negative : Bool) (text : Text) : Option Double :=
  let word := text.map Char.toLower
  if word = "inf".toList ∨ word = "infinity".toList then some (.inf negative)
  else if word = "nan".toList then some .nan
  else (decimal text).map (fun x => .ofRat (if negative then -x else x))

def float? (text : Text) : Option Double :=
  match strip text with
  | '-' :: body => unsignedFloat true body
  | '+' :: body => unsignedFloat false body
  | body => unsignedFloat false body

theorem digits_ofNat (n : Nat) : ∀ c ∈ ofNat n, c.isDigit = true :=
  fun _ member => Nat.isDigit_of_mem_toDigits (by decide) (by decide) member

theorem ofNat_ne_nil (n : Nat) : ofNat n ≠ [] := Nat.toDigits_ne_nil

theorem mem_ofInt {c : Char} {n : Int} (member : c ∈ ofInt n) : c = '-' ∨ c.isDigit = true := by
  cases n with
  | ofNat n => exact .inr (digits_ofNat n c member)
  | negSucc n =>
    rcases List.mem_cons.mp member with sign | digit
    · exact .inl sign
    · exact .inr (digits_ofNat (n + 1) c digit)

theorem ofInt_injective {m n : Int} (same : ofInt m = ofInt n) : m = n := by
  have minus : ∀ k, '-' ∉ ofNat k := notMem_ofNat (by decide)
  cases m with
  | ofNat m =>
    cases n with
    | ofNat n => rw [ofNat_injective same]
    | negSucc n =>
      have signed : ofNat m = '-' :: ofNat (n + 1) := same
      exact absurd (signed ▸ List.mem_cons_self) (minus m)
  | negSucc m =>
    cases n with
    | ofNat n =>
      have signed : ofNat n = '-' :: ofNat (m + 1) := same.symm
      exact absurd (signed ▸ List.mem_cons_self) (minus n)
    | negSucc n => rw [Nat.succ.inj (ofNat_injective (List.cons.inj same).2)]

theorem notMem_ofInt {c : Char} (sign : c ≠ '-') (letter : c.isDigit = false) (n : Int) :
    c ∉ ofInt n := by
  intro member
  rcases mem_ofInt member with same | digit
  · exact sign same
  · rw [letter] at digit
    cases digit

section Float

variable {body : Text}

theorem digitRun_of_digits (some : body ≠ []) (digits : ∀ c ∈ body, c.isDigit = true) :
    digitRun body = .some (Nat.ofDigitChars 10 body 0) := by
  have noUnderscore : ¬['_'] <:+: body := by
    intro occurs
    have := digits '_' ((List.singleton_infix_iff _ _).mp occurs)
    exact absurd this (by decide)
  have all : body.all Char.isDigit = true := List.all_eq_true.mpr digits
  rw [digitRun, splitOn_of_absent noUnderscore, List.filter_eq_self.mpr digits]
  simp [some, all]

theorem digitRun_none {c : Char} (member : c ∈ body) (underscore : c ≠ '_')
    (letter : c.isDigit = false) :
    digitRun body = none := by
  rw [digitRun, if_neg]
  intro all
  rw [← intercalate_splitOn ['_'] body] at member
  rcases mem_intercalate member with inside | ⟨run, there, inside⟩
  · exact underscore (List.mem_singleton.mp inside)
  · have digits := List.all_eq_true.mp all run there
    simp only [Bool.and_eq_true] at digits
    rw [List.all_eq_true.mp digits.2 c inside] at letter
    cases letter

def PlainChar (c : Char) : Prop := c.isDigit = true ∨ c = ',' ∨ c = '-'

instance (c : Char) : Decidable (PlainChar c) := inferInstanceAs (Decidable (_ ∨ _))

def Plain (s : Text) : Prop := ∀ c ∈ s, PlainChar c

theorem exists_foreign (words : List Text)
    (each : words.all (fun word => word.any (fun c => !decide (PlainChar c))) = true) :
    ∀ word ∈ words, ∃ c ∈ word, ¬PlainChar c := by
  intro word member
  obtain ⟨c, inside, foreign⟩ := List.any_eq_true.mp (List.all_eq_true.mp each word member)
  exact ⟨c, inside, by simpa using foreign⟩

theorem Plain.notMem (plain : Plain body) {c : Char} (foreign : ¬PlainChar c) : c ∉ body :=
  fun member => foreign (plain c member)

theorem Plain.append {a b : Text} (left : Plain a) (right : Plain b) : Plain (a ++ b) := by
  intro c member
  rcases List.mem_append.mp member with inA | inB
  · exact left c inA
  · exact right c inB

theorem Plain.of_append {a b : Text} (plain : Plain (a ++ b)) : Plain a ∧ Plain b :=
  ⟨fun c member => plain c (List.mem_append_left b member), fun c member =>
    plain c (List.mem_append_right a member)⟩

theorem plain_of_digits (digits : ∀ c ∈ body, c.isDigit = true) : Plain body :=
  fun c member => .inl (digits c member)

theorem plain_ofInt (n : Int) : Plain (ofInt n) := by
  intro c member
  rcases mem_ofInt member with sign | digit
  · exact .inr (.inr sign)
  · exact .inl digit

theorem isSpace_of_plain {c : Char} (plain : PlainChar c) : isSpace c = false := by
  rcases plain with digit | rfl | rfl
  · simp only [Char.isDigit, Bool.and_eq_true, decide_eq_true_eq, UInt32.le_iff_toNat_le] at digit
    have low : 48 ≤ c.toNat := digit.1
    have high : c.toNat ≤ 57 := digit.2
    simp only [isSpace, Bool.or_eq_false_iff, Bool.and_eq_false_iff, decide_eq_false_iff_not,
      beq_eq_false_iff_ne]
    omega
  · decide
  · decide

theorem toLower_of_plain {c : Char} (plain : PlainChar c) : c.toLower = c := by
  rcases plain with digit | rfl | rfl
  · simp only [Char.isDigit, Bool.and_eq_true, decide_eq_true_eq] at digit
    refine dif_neg (fun letter => ?_)
    have low : 65 ≤ c.val := letter.1
    have high := digit.2
    simp only [UInt32.le_iff_toNat_le] at low high
    have : (65 : UInt32).toNat = 65 := rfl
    have : '9'.val.toNat = 57 := rfl
    omega
  · decide
  · decide

theorem strip_of_plain (plain : Plain body) : strip body = body :=
  trim_of_none (fun c member => isSpace_of_plain (plain c member))

theorem toLower_map_of_plain (plain : Plain body) : body.map Char.toLower = body := by
  rw [List.map_congr_left (fun c member => toLower_of_plain (plain c member)), List.map_id']

theorem decimal_of_plain (plain : Plain body) (some : body ≠ []) :
    decimal body = (digitRun body).bind (fun _ =>
      if body.filter Char.isDigit = [] then
        none
      else .some (Nat.ofDigitChars 10 (body.filter Char.isDigit) 0 : ℚ)) := by
  have noExponent : ∀ c ∈ body, (decide (c ≠ 'e') && decide (c ≠ 'E')) = true := by
    intro c member
    have lower : c ≠ 'e' := fun same => plain.notMem (by decide) (same ▸ member)
    have upper : c ≠ 'E' := fun same => plain.notMem (by decide) (same ▸ member)
    simp [lower, upper]
  have noPoint : ∀ c ∈ body, decide (c ≠ '.') = true := by
    intro c member
    have point : c ≠ '.' := fun same => plain.notMem (by decide) (same ▸ member)
    simp [point]
  have mantissa := List.takeWhile_eq_self_iff.mpr noExponent
  have rest := List.dropWhile_eq_nil_iff.mpr noExponent
  have whole := List.takeWhile_eq_self_iff.mpr noPoint
  have fraction := List.dropWhile_eq_nil_iff.mpr noPoint
  simp only [decimal, mantissa, rest, whole, fraction, exponent, digitsOrNone, if_neg some,
    List.drop_nil, if_true]
  cases digitRun body with
  | none => rfl
  | some n =>
    simp only [Option.map_some, Option.bind_eq_bind, Option.bind_some, List.append_nil,
      List.length_nil, Nat.cast_zero, sub_zero, zpow_zero, mul_one]

theorem unsignedFloat_of_plain (plain : Plain body) (negative : Bool) :
    unsignedFloat negative body =
      (decimal body).map (fun x => .ofRat (if negative then -x else x)) := by
  have word : ∀ w : Text, 'n' ∈ w → body ≠ w := by
    intro w member same
    exact plain.notMem (by decide) (same ▸ member)
  rw [unsignedFloat, toLower_map_of_plain plain, if_neg, if_neg]
  · exact word _ (by decide)
  · rintro (same | same)
    · exact word _ (by decide) same
    · exact word _ (by decide) same

theorem unsignedFloat_ofNat (negative : Bool) (n : Nat) :
    unsignedFloat negative (ofNat n) = some (.ofRat (if negative then -n else n)) := by
  have digits := digits_ofNat n
  have nonempty := ofNat_ne_nil n
  have plain := plain_of_digits digits
  rw [unsignedFloat_of_plain plain, decimal_of_plain plain nonempty,
    digitRun_of_digits nonempty digits, List.filter_eq_self.mpr digits]
  simp only [Option.bind_some, if_neg nonempty, Option.map_some]
  rw [ofNat, Nat.ofDigitChars_ten_toDigits]

theorem float?_ofInt (n : Int) : float? (ofInt n) = some (.ofRat n) := by
  rw [float?, strip_of_plain (plain_ofInt n)]
  cases n with
  | ofNat n =>
    rw [ofInt]
    have digits := digits_ofNat n
    split
    · rename_i body same
      exact absurd (digits '-' (by simp [same])) (by decide)
    · rename_i body same
      exact absurd (digits '+' (by simp [same])) (by decide)
    · rw [unsignedFloat_ofNat]
      simp
  | negSucc n =>
    simp only [ofInt]
    rw [unsignedFloat_ofNat]
    simp [Int.negSucc_eq]

theorem float?_comma (plain : Plain body) (comma : ',' ∈ body) : float? body = none := by
  have unsigned : ∀ (negative : Bool) (rest : Text), Plain rest → ',' ∈ rest →
      unsignedFloat negative rest = none := by
    intro negative rest plain comma
    have nonempty := List.ne_nil_of_mem comma
    rw [unsignedFloat_of_plain plain, decimal_of_plain plain nonempty,
      digitRun_none comma (by decide) (by decide)]
    rfl
  rw [float?, strip_of_plain plain]
  split
  · exact unsigned _ _ (fun c member => plain c (List.mem_cons_of_mem _ member))
      (by simpa using comma)
  · exact absurd (plain '+' List.mem_cons_self) (by decide)
  · exact unsigned _ _ plain comma

theorem digitRun_ofNat (n : Nat) : digitRun (ofNat n) = some n := by
  rw [digitRun_of_digits (ofNat_ne_nil n) (digits_ofNat n), ofNat, Nat.ofDigitChars_ten_toDigits]

theorem int?_ofInt (n : Int) : int? (ofInt n) = some n := by
  rw [int?, strip_of_plain (plain_ofInt n)]
  cases n with
  | ofNat n =>
    rw [ofInt]
    have digits := digits_ofNat n
    split
    · rename_i body same
      exact absurd (digits '-' (by simp [same])) (by decide)
    · rename_i body same
      exact absurd (digits '+' (by simp [same])) (by decide)
    · simp [digitRun_ofNat]
  | negSucc n =>
    simp only [ofInt, digitRun_ofNat]
    simp [Int.negSucc_eq]

theorem int?_comma (plain : Plain body) (comma : ',' ∈ body) : int? body = none := by
  have none : ∀ rest : Text, ',' ∈ rest → digitRun rest = .none :=
    fun rest inside => digitRun_none inside (by decide) (by decide)
  rw [int?, strip_of_plain plain]
  split
  · rw [none _ (by simpa using comma)]
    rfl
  · exact absurd (plain '+' List.mem_cons_self) (by decide)
  · rw [none _ comma]
    rfl

end Float

end Verl.Text
