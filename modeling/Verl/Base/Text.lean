import Mathlib.Data.List.Basic
import Mathlib.Order.Defs.Unbundled
import Verl.Base.Python

/-! Decimal numbers in file names and small text files: `str(n)`, the zero-padded
`{n:02d}`, and `int(text)`; and the order of `sorted` on texts. -/
namespace Verl

abbrev Text := List Char

namespace Text

def ofNat (n : Nat) : Text := Nat.toDigits 10 n

def padded (width n : Nat) : Text := List.replicate (width - (ofNat n).length) '0' ++ ofNat n

/-- `int(text)` on the texts without sign and blanks. -/
def toInt (text : Text) : Py Nat :=
  if text ≠ [] ∧ text.all Char.isDigit then .ok (Nat.ofDigitChars 10 text 0)
  else .error (.value "invalid literal for int() with base 10")

theorem toInt_ofNat (n : Nat) : toInt (ofNat n) = .ok n := by
  have digits : ofNat n ≠ [] ∧ (ofNat n).all Char.isDigit :=
    ⟨Nat.toDigits_ne_nil, List.all_eq_true.mpr (fun c member =>
      Nat.isDigit_of_mem_toDigits (by decide) (by decide) member)⟩
  rw [toInt, if_pos digits, ofNat, Nat.ofDigitChars_ten_toDigits]

theorem toInt_nil : toInt [] = .error (.value "invalid literal for int() with base 10") := rfl

theorem ofDigitChars_padded (width n : Nat) : Nat.ofDigitChars 10 (padded width n) 0 = n := by
  rw [padded, Nat.ofDigitChars_append, Nat.ofDigitChars_replicate_zero, Nat.mul_zero, ofNat,
    Nat.ofDigitChars_ten_toDigits]

theorem padded_injective {width m n : Nat} (same : padded width m = padded width n) : m = n := by
  rw [← ofDigitChars_padded width m, same, ofDigitChars_padded]

theorem ofNat_injective {m n : Nat} (same : ofNat m = ofNat n) : m = n :=
  Except.ok.inj ((toInt_ofNat m).symm.trans (same ▸ toInt_ofNat n))

theorem notMem_ofNat {c : Char} (letter : c.isDigit = false) (n : Nat) : c ∉ ofNat n := by
  intro member
  rw [Nat.isDigit_of_mem_toDigits (by decide) (by decide) member] at letter
  cases letter

theorem dot_notMem_ofNat (n : Nat) : '.' ∉ ofNat n := notMem_ofNat (by decide) n

theorem isDigit_of_mem_padded {width n : Nat} {c : Char} (member : c ∈ padded width n) :
    c.isDigit = true := by
  rcases List.mem_append.mp member with zero | digit
  · rw [List.eq_of_mem_replicate zero]
    decide
  · exact Nat.isDigit_of_mem_toDigits (by decide) (by decide) digit

theorem append_injective {c : Char} {a b u v : Text} (separatorA : c ∉ a) (separatorB : c ∉ b)
    (same : a ++ c :: u = b ++ c :: v) : a = b ∧ u = v := by
  induction a generalizing b with
  | nil =>
    cases b with
    | nil => simpa using same
    | cons y b =>
      have head : c = y := by simpa using congrArg List.head? same
      exact absurd (by simp [head]) separatorB
  | cons x a ih =>
    cases b with
    | nil =>
      have head : x = c := by simpa using congrArg List.head? same
      exact absurd (by simp [head]) separatorA
    | cons y b =>
      simp only [List.cons_append, List.cons.injEq] at same
      obtain ⟨rfl, rest⟩ := same
      obtain ⟨rfl, rfl⟩ :=
        ih (fun h => separatorA (by simp [h])) (fun h => separatorB (by simp [h])) rest
      exact ⟨rfl, rfl⟩

section Order

/-- `a < b` for texts: by code points, the shorter one first. -/
def before : Text → Text → Bool
  | _, [] => false
  | [], _ :: _ => true
  | c :: a, d :: b => c.toNat < d.toNat || (c == d && before a b)

def le (a b : Text) : Bool := !before b a

theorem before_irrefl (a : Text) : before a a = false := by
  induction a with
  | nil => rfl
  | cons c a ih => simp [before, ih]

theorem before_trans {a b c : Text} (first : before a b = true) (second : before b c = true) :
    before a c = true := by
  induction a generalizing b c with
  | nil =>
    cases c with
    | nil => cases b <;> cases second
    | cons z c => rfl
  | cons x a ih =>
    cases b with
    | nil => cases first
    | cons y b =>
      cases c with
      | nil => cases second
      | cons z c =>
        simp only [before, Bool.or_eq_true, decide_eq_true_eq, Bool.and_eq_true, beq_iff_eq] at *
        rcases first with small | ⟨rfl, first⟩
        · rcases second with large | ⟨rfl, -⟩
          · exact .inl (Nat.lt_trans small large)
          · exact .inl small
        · rcases second with large | ⟨rfl, second⟩
          · exact .inl large
          · exact .inr ⟨rfl, ih first second⟩

theorem before_total (a b : Text) : before a b = true ∨ a = b ∨ before b a = true := by
  induction a generalizing b with
  | nil =>
    cases b with
    | nil => exact .inr (.inl rfl)
    | cons y b => exact .inl rfl
  | cons x a ih =>
    cases b with
    | nil => exact .inr (.inr rfl)
    | cons y b =>
      simp only [before, Bool.or_eq_true, decide_eq_true_eq, Bool.and_eq_true, beq_iff_eq]
      rcases Nat.lt_trichotomy x.toNat y.toNat with small | same | large
      · exact .inl (.inl small)
      · obtain rfl : x = y := Char.ext (UInt32.toNat_inj.mp same)
        rcases ih b with less | rfl | more
        · exact .inl (.inr ⟨rfl, less⟩)
        · exact .inr (.inl rfl)
        · exact .inr (.inr (.inr ⟨rfl, more⟩))
      · exact .inr (.inr (.inl large))

theorem not_le_of_before {a b : Text} (smaller : before a b = true) : ¬le b a = true := by
  simp [le, smaller]

theorem before_of_le_of_ne {a b : Text} (least : le a b = true) (different : a ≠ b) :
    before a b = true := by
  rcases before_total a b with less | same | more
  · exact less
  · exact absurd same different
  · exact absurd least (not_le_of_before more)

instance : Std.Total (fun a b : Text => le a b = true) where
  total a b := by
    rcases before_total a b with less | rfl | more
    · left
      cases back : before b a with
      | false => simp [le, back]
      | true => exact absurd (before_trans less back) (by simp [before_irrefl])
    · left
      simp [le, before_irrefl]
    · right
      cases back : before a b with
      | false => simp [le, back]
      | true => exact absurd (before_trans more back) (by simp [before_irrefl])

instance : IsTrans Text (fun a b => le a b = true) where
  trans a b c first second := by
    simp only [le, Bool.not_eq_true'] at *
    cases back : before c a with
    | false => rfl
    | true =>
      rcases before_total a b with less | rfl | more
      · rw [before_trans back less] at second
        cases second
      · rw [back] at second
        cases second
      · rw [more] at first
        cases first

end Order

end Text

end Verl
