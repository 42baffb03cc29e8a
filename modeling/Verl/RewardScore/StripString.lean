import Verl.Base.Numerals

/-! The answer normaliser of the MATH graders and its two copies: `strip_string` of
`verl/utils/reward_score/math.py` and `_strip_string` of
`verl/utils/reward_score/prime_math/math_normalize.py`. `int` is Python's `int`, with `none` for its
`ValueError`. -/
namespace Verl.StripString
open Text

section Model

def frac : Marker Char := ⟨'\\', "frac".toList, by decide⟩

def sqrt : Marker Char := ⟨'\\', "sqrt".toList, by decide⟩

def units : Marker Char := ⟨'\\', "text\x7b ".toList, by decide⟩

/-- The loop of `fix_fracs` and of `fix_sqrt` over the pieces behind the first one, with `none` for
a `return string` from inside it. -/
def rejoin (word : Text) (fix : Text → Py (Option Text)) : List Text → Text → Py (Option Text)
  | [], newStr => .ok (some newStr)
  | substr :: substrs, newStr => do
    match ← fix substr with
    | some fixed => rejoin word fix substrs (newStr ++ word ++ fixed)
    | none => return none

def fixPieces (word : Text) (fix : Text → Py (Option Text)) (string : Text) : Py Text := do
  let substrs := splitOn word string
  let newStr ← rejoin word fix substrs.tail (substrs.head (splitOn_ne_nil word string))
  return newStr.getD string

def fracPiece : Text → Py (Option Text)
  | [] => .error .index
  | a :: rest =>
    if a = '\x7b' then .ok (some (a :: rest))
    else
      match rest with
      | [] => .ok none
      | b :: post =>
        if b ≠ '\x7b' then .ok (some (['\x7b', a, '\x7d', '\x7b', b, '\x7d'] ++ post))
        else .ok (some (['\x7b', a, '\x7d', b] ++ post))

def fixFracs (string : Text) : Py Text := fixPieces frac.word fracPiece string

def sqrtPiece : Text → Py (Option Text)
  | [] => .error .index
  | a :: rest =>
    if a ≠ '\x7b' then .ok (some (['\x7b', a, '\x7d'] ++ rest)) else .ok (some (a :: rest))

def fixSqrt (string : Text) : Py Text :=
  if sqrt.word <:+: string then fixPieces sqrt.word sqrtPiece string else .ok string

def removeRightUnits (string : Text) : Py Text :=
  if units.word <:+: string then do
    let splits := splitOn units.word string
    pyAssert (splits.length == 2) ""
    return splits.head (splitOn_ne_nil _ _)
  else .ok string

def fracText (a b : Text) : Text := frac.word ++ ['\x7b'] ++ a ++ ['\x7d', '\x7b'] ++ b ++ ['\x7d']

def pyInt (int : Text → Option Int) (text : Text) : Py Int :=
  match int text with
  | some n => .ok n
  | none => .error (.value "invalid literal for int() with base 10")

def slashFrac (int : Text → Option Int) (string a b : Text) : Py Text := do
  let a ← pyInt int a
  let b ← pyInt int b
  pyAssert (string == ofInt a ++ ['/'] ++ ofInt b) ""
  return fracText (ofInt a) (ofInt b)

def fixASlashBWith (caught : PyError → Bool) (int : Text → Option Int) (string : Text) : Py Text :=
  match splitOn ['/'] string with
  | [a, b] =>
    match slashFrac int string a b with
    | .ok newString => .ok newString
    | .error e => if caught e then .ok string else .error e
  | _ => .ok string

def isAssertionError : PyError → Bool
  | .assertion _ => true
  | _ => false

/-- `fix_a_slash_b` of `math.py`, with `except AssertionError`. -/
def fixASlashB : (Text → Option Int) → Text → Py Text := fixASlashBWith isAssertionError

/-- `_fix_a_slash_b` of `math_normalize.py`, with a bare `except`. -/
def primeFixASlashB : (Text → Option Int) → Text → Py Text := fixASlashBWith (fun _ => true)

def replaceAll (pairs : List (Text × Text)) (string : Text) : Text :=
  pairs.foldl (fun string pair => replace pair.1 pair.2 string) string

def markup : List (Text × Text) :=
  [("\n".toList, []), ("\\!".toList, []), ("\\\\".toList, "\\".toList),
    ("tfrac".toList, "frac".toList), ("dfrac".toList, "frac".toList), ("\\left".toList, []),
    ("\\right".toList, []), ("^\x7b\\circ\x7d".toList, []),
    ("^\\circ".toList, []), ("\\$".toList, [])]

def percentsAndDots : List (Text × Text) :=
  [("\\%".toList, []), ("\\%".toList, []), (" .".toList, " 0.".toList),
    ("\x7b.".toList, "\x7b0.".toList)]

/-- The passes up to the test for the empty string. -/
def removeMarkup (string : Text) : Py Text := do
  let string ← removeRightUnits (replaceAll markup string)
  return replaceAll percentsAndDots string

def leadingZero (string : Text) : Text := if string.head? = some '.' then '0' :: string else string

def dropShortLeft (string : Text) : Text :=
  match splitOn ['='] string with
  | [left, right] => if left.length ≤ 2 then right else string
  | _ => string

def half (string : Text) : Text := if string = "0.5".toList then fracText ['1'] ['2'] else string

/-- The passes behind the test for the empty string, up to the last one. -/
def fixNumbers (string : Text) : Py Text := do
  let string ← fixSqrt (dropShortLeft (leadingZero string))
  let string ← fixFracs (replace [' '] [] string)
  return half string

def stripWith (fixASlashB : Text → Py Text) (string : Text) : Py Text := do
  let string ← removeMarkup string
  if string = [] then return string
  let string ← fixNumbers string
  fixASlashB string

def stripString (int : Text → Option Int) : Text → Py Text := stripWith (fixASlashB int)

def primeStripString (int : Text → Option Int) : Text → Py Text := stripWith (primeFixASlashB int)

def beforeSlash (string : Text) : Py Text := do
  let string ← removeMarkup string
  if string = [] then return string
  fixNumbers string

end Model

section Copies

variable (int : Text → Option Int)

theorem fixASlashBWith_nil (caught : PyError → Bool) : fixASlashBWith caught int [] = .ok [] := rfl

theorem stripWith_eq (caught : PyError → Bool) (s : Text) :
    stripWith (fixASlashBWith caught int) s = beforeSlash s >>= fixASlashBWith caught int := by
  rw [stripWith, beforeSlash]
  cases removeMarkup s with
  | error e => rfl
  | ok string =>
    simp only [ok_bind]
    by_cases empty : string = []
    · subst empty
      exact (fixASlashBWith_nil int caught).symm
    · rw [if_neg empty, if_neg empty]

def Agree (x y : Py Text) : Prop :=
  (∃ e e', x = .error e ∧ y = .error e') ∨ ∃ t, x = .ok t ∧ y = .ok t

/-- One slash, with something beside it that is no integer. -/
def Unreadable (u : Text) : Prop :=
  ∃ a b, u = a ++ '/' :: b ∧ '/' ∉ a ∧ '/' ∉ b ∧ (int a = none ∨ int b = none)

variable {int}

theorem pyInt_error {text : Text} {e : PyError} :
    pyInt int text = .error e → isAssertionError e = false := by
  intro raised
  cases read : int text with
  | none =>
    rw [pyInt, read] at raised
    cases raised
    rfl
  | some n =>
    rw [pyInt, read] at raised
    cases raised

theorem slashFrac_unreadable {string a b : Text} (failed : int a = none ∨ int b = none) :
    ∃ e, slashFrac int string a b = .error e ∧ isAssertionError e = false := by
  cases readA : pyInt int a with
  | error e => exact ⟨e, by rw [slashFrac, readA]; rfl, pyInt_error readA⟩
  | ok x =>
    cases readB : pyInt int b with
    | error e => exact ⟨e, by rw [slashFrac, readA, readB]; rfl, pyInt_error readB⟩
    | ok y =>
      rcases failed with none | none
      · rw [pyInt, none] at readA
        cases readA
      · rw [pyInt, none] at readB
        cases readB

theorem slashFrac_readable {string a b : Text} {x y : Int} (readA : int a = some x)
    (readB : int b = some y) :
    slashFrac int string a b =
      if string = ofInt x ++ ['/'] ++ ofInt y then
        .ok (fracText (ofInt x) (ofInt y))
      else .error (.assertion "") := by
  rw [slashFrac, pyInt, pyInt, readA, readB]
  by_cases same : string = ofInt x ++ ['/'] ++ ofInt y
  · rw [if_pos same]
    simp [pyAssert, same]
  · rw [if_neg same]
    have differs : (string == ofInt x ++ ['/'] ++ ofInt y) = false := beq_false_of_ne same
    simp only [pyAssert, ok_bind, differs]
    rfl

theorem fixASlashBWith_other {caught : PyError → Bool} {u : Text}
    (other : ∀ a b, splitOn ['/'] u ≠ [a, b]) :
    fixASlashBWith caught int u = .ok u := by
  rw [fixASlashBWith]
  split
  · rename_i a b two
    exact absurd two (other a b)
  · rfl

theorem fixASlashBWith_readable {caught : PyError → Bool} {u a b : Text} {x y : Int}
    (handles : caught (.assertion "") = true)
    (two : splitOn ['/'] u = [a, b]) (readA : int a = some x) (readB : int b = some y) :
    fixASlashBWith caught int u =
      .ok (if u = ofInt x ++ ['/'] ++ ofInt y then fracText (ofInt x) (ofInt y) else u) := by
  rw [fixASlashBWith, two]
  simp only [slashFrac_readable readA readB]
  by_cases same : u = ofInt x ++ ['/'] ++ ofInt y
  · rw [if_pos same, if_pos same]
  · rw [if_neg same, if_neg same]
    simp only [handles, if_true]

theorem fixASlashB_agree {u : Text} (readable : ¬Unreadable int u) :
    fixASlashB int u = primeFixASlashB int u := by
  rw [fixASlashB, primeFixASlashB]
  by_cases two : ∃ a b, splitOn ['/'] u = [a, b]
  · obtain ⟨a, b, two⟩ := two
    obtain ⟨same, left, right⟩ := splitOn_single_eq_pair.mp two
    cases readA : int a with
    | none => exact absurd ⟨a, b, same, left, right, .inl readA⟩ readable
    | some x =>
      cases readB : int b with
      | none => exact absurd ⟨a, b, same, left, right, .inr readB⟩ readable
      | some y =>
        rw [fixASlashBWith_readable rfl two readA readB,
        fixASlashBWith_readable rfl two readA readB]
  · have other : ∀ a b, splitOn ['/'] u ≠ [a, b] := fun a b there => two ⟨a, b, there⟩
    rw [fixASlashBWith_other other, fixASlashBWith_other other]

theorem fixASlashB_unreadable {u : Text} (unreadable : Unreadable int u) :
    (∃ e, fixASlashB int u = .error e) ∧ primeFixASlashB int u = .ok u := by
  obtain ⟨a, b, same, left, right, failed⟩ := unreadable
  have two := splitOn_single_eq_pair.mpr ⟨same, left, right⟩
  obtain ⟨e, raised, kind⟩ := @slashFrac_unreadable int u a b failed
  constructor
  · refine ⟨e, ?_⟩
    rw [fixASlashB, fixASlashBWith, two]
    simp only [raised, kind]
    rfl
  · rw [primeFixASlashB, fixASlashBWith, two]
    simp only [raised, if_true]

/-- The two copies part exactly where the last pass meets one slash with something that is no
integer beside it: there one raises and the other keeps the text. -/
theorem strip_string_copies_agree_iff (int : Text → Option Int) (s : Text) :
    Agree (stripString int s) (primeStripString int s) ↔
      ¬∃ u, beforeSlash s = .ok u ∧ Unreadable int u := by
  rw [stripString, primeStripString, fixASlashB, primeFixASlashB, stripWith_eq, stripWith_eq]
  cases reached : beforeSlash s with
  | error e => simp [Agree]
  | ok u =>
    simp only [ok_bind, Except.ok.injEq, exists_eq_left']
    constructor
    · rintro (⟨e, e', -, primeRaised⟩ | ⟨t, kept, -⟩) unreadable
      · have kept : fixASlashBWith (fun _ => true) int u = .ok u :=
          (fixASlashB_unreadable unreadable).2
        rw [kept] at primeRaised
        cases primeRaised
      · obtain ⟨e, raised⟩ := (fixASlashB_unreadable unreadable).1
        have raised : fixASlashBWith isAssertionError int u = .error e := raised
        rw [raised] at kept
        cases kept
    · intro readable
      have same : fixASlashBWith isAssertionError int u = fixASlashBWith (fun _ => true) int u :=
        fixASlashB_agree readable
      rw [same]
      cases result : fixASlashBWith (fun _ => true) int u with
      | error e => exact .inl ⟨e, e, rfl, rfl⟩
      | ok t => exact .inr ⟨t, rfl, rfl⟩

theorem strip_string_copies_part_on_letters :
    ¬Agree (stripString int? "a/b".toList) (primeStripString int? "a/b".toList) := by
  have raised : stripString int? "a/b".toList =
    .error (.value "invalid literal for int() with base 10") := by decide +kernel
  have kept : primeStripString int? "a/b".toList = .ok "a/b".toList := by decide +kernel
  rw [raised, kept]
  rintro (⟨e, e', -, wrong⟩ | ⟨t, wrong, -⟩) <;> cases wrong

end Copies

end Verl.StripString
