import Mathlib.Algebra.Order.Ring.Rat
import Mathlib.Data.List.Forall2
import Mathlib.Tactic.Positivity
import Verl.Base.Lines
import Verl.RewardScore.PrimeCode

/-! The comparison of a program's output with the expected output in the standard-input branch of
`run_test`, `verl/utils/reward_score/prime_code/testing_util.py`. Floating-point numbers are a
parameter. -/
namespace Verl.PrimeCode
open Text

section Model

/-- `float` and `np.isclose`, and `str.isdigit` of one character. -/
structure Numerics (F : Type) where
  float : Text → Option F
  isclose : F → F → Bool
  isDigit : Char → Bool

def strippedStringCompare (s1 s2 : Text) : Bool := strip s1 == strip s2

def customCompare (output : List Text) (groundTruth : Text) : Bool :=
  strippedStringCompare (joinLines output) groundTruth ||
    strippedStringCompare (joinLines (output.map strip)) groundTruth

def filterLen (lines : List Text) : List Text := lines.filter (fun line => !line.isEmpty)

/-- The expected output as it is rewritten in place: its lines that are not empty, stripped. -/
def splitExpected (groundTruth : Text) : List Text :=
  (filterLen (groundTruth.splitOn '\n')).map strip

variable {F : Type} (n : Numerics F)

def combinedIntCheck (val : Text) : Bool := !val.isEmpty && val.all n.isDigit

def allInts (output groundTruth : List Text) : Bool :=
  (output.zip groundTruth).all (fun (e1, e2) => combinedIntCheck n e1 && combinedIntCheck n e2)

def allclose (a b : List F) : Bool := (a.zip b).all (fun (x, y) => n.isclose x y)

def floatCompare (output groundTruth : List Text) : Bool :=
  if allInts n output groundTruth then false
  else
    match output.mapM n.float, groundTruth.mapM n.float with
    | some outputFloat, some gtFloat =>
      outputFloat.length == gtFloat.length && allclose n outputFloat gtFloat
    | _, _ => false

/-- The result that is appended to `results`. A list of expected texts does not come this far:
`truncatefn` asserts a text. -/
def standardInputCompare (rawTrueOutput groundTruth : Text) : Bool :=
  let output := splitlines rawTrueOutput
  if customCompare output groundTruth then true
  else if output == [groundTruth] then true
  else
    let groundTruthLines := splitExpected groundTruth
    -- a list of texts never equals a list of one list
    if output == groundTruthLines then true
    else
      let output := filterLen output
      if output == groundTruthLines || floatCompare n output groundTruthLines then true
      else
        -- the expected lines are sets by now, and no text equals a set
        output.isEmpty && groundTruthLines.isEmpty

end Model

section Contract

def readNat (s : Text) : Option Nat :=
  if s ≠ [] ∧ s.all Char.isDigit then some (Nat.ofDigitChars 10 s 0) else none

def readInt : Text → Option Int
  | '-' :: s => (readNat s).map (fun m => -(m : Int))
  | '+' :: s => (readNat s).map (fun m => (m : Int))
  | s => (readNat s).map (fun m => (m : Int))

def IntegerLines (lines : List Text) : Prop :=
  ∀ line ∈ lines, strip line = [] ∨ ∃ z, readInt (strip line) = some z

instance (lines : List Text) : Decidable (IntegerLines lines) :=
  decidable_of_iff (∀ line ∈ lines, strip line = [] ∨ (readInt (strip line)).isSome = true)
    (by simp only [IntegerLines, Option.isSome_iff_exists])

def integers (lines : List Text) : List Int := lineValues isSpace readInt lines

def outputIntegers (rawTrueOutput : Text) : List Int := integers (splitlines rawTrueOutput)

def expectedIntegers (groundTruth : Text) : List Int := integers (groundTruth.splitOn '\n')

def SameText (output : List Text) (groundTruth : Text) : Prop :=
  customCompare output groundTruth = true ∨ output = [groundTruth] ∨
    output = splitExpected groundTruth ∨ filterLen output = splitExpected groundTruth

variable {F : Type}

def Converts (n : Numerics F) (lines : List Text) : Prop :=
  ∀ line ∈ lines, (n.float line).isSome = true

instance (n : Numerics F) (lines : List Text) : Decidable (Converts n lines) :=
  inferInstanceAs (Decidable (∀ line ∈ lines, (n.float line).isSome = true))

/-- The floats are compared: some compared line is more than digits, and `float` takes all of
them. -/
def FloatsCompared (n : Numerics F) (output : List Text) (groundTruth : Text) : Prop :=
  allInts n (filterLen output) (splitExpected groundTruth) = false ∧ Converts n (filterLen output) ∧
    Converts n (splitExpected groundTruth)

/-- What is documented about `float` and `np.isclose`: the value of an integer literal depends on
the integer only, a blank text has none, and a value is close to itself. -/
structure Numerics.Documented (n : Numerics F) (ofInt : Int → F) : Prop where
  float_int : ∀ line z x, readInt (strip line) = some z → n.float line = some x → x = ofInt z
  float_blank : ∀ line, strip line = [] → n.float line = none
  close_self : ∀ z, n.isclose (ofInt z) (ofInt z) = true

end Contract

section Texts

theorem readInt_nil : readInt [] = none := rfl

theorem integers_filterLen (lines : List Text) : integers (filterLen lines) = integers lines :=
  lineValues_filter readInt_nil lines

theorem integers_splitExpected (groundTruth : Text) :
    integers (splitExpected groundTruth) = integers (groundTruth.splitOn '\n') := by
  rw [splitExpected]
  exact (lineValues_map_trim _).trans (integers_filterLen _)

theorem integers_of_stripped {output : List Text} {groundTruth : Text}
    (whole : ∀ line ∈ output, '\n' ∉ line)
    (same : strippedStringCompare (joinLines output) groundTruth = true) :
    integers output = integers (groundTruth.splitOn '\n') := by
  have equal : trim isSpace (joinLines output) = trim isSpace groundTruth := beq_iff_eq.mp same
  calc integers output
      = textValues isSpace readInt '\n' (joinLines output) :=
        (textValues_intercalate readInt_nil whole).symm
    _ = textValues isSpace readInt '\n' groundTruth := by
      rw [← textValues_trim readInt_nil, equal, textValues_trim readInt_nil]
    _ = integers (groundTruth.splitOn '\n') := rfl

theorem integers_of_sameText {output : List Text} {groundTruth : Text}
    (whole : ∀ line ∈ output, '\n' ∉ line) (same : SameText output groundTruth) :
    integers output = integers (groundTruth.splitOn '\n') := by
  rcases same with custom | rfl | rfl | same
  · rw [customCompare, Bool.or_eq_true] at custom
    rcases custom with plain | stripped
    · exact integers_of_stripped whole plain
    · have pieces : ∀ line ∈ output.map strip, '\n' ∉ line := by
        intro line there
        obtain ⟨full, member, rfl⟩ := List.mem_map.mp there
        exact fun inside => whole full member ((trim_inside full).subset inside)
      rw [← integers_of_stripped pieces stripped]
      exact (lineValues_map_trim output).symm
  · rw [List.splitOn_eq_singleton (whole groundTruth List.mem_cons_self)]
  · exact integers_splitExpected groundTruth
  · rw [← integers_filterLen, same, integers_splitExpected]

variable {F : Type} {n : Numerics F}

theorem standardInputCompare_iff {rawTrueOutput groundTruth : Text} :
    standardInputCompare n rawTrueOutput groundTruth = true ↔
      SameText (splitlines rawTrueOutput) groundTruth ∨
      floatCompare n (filterLen (splitlines rawTrueOutput)) (splitExpected groundTruth) = true := by
  have bothEmpty : ∀ output lines : List Text, (output.isEmpty && lines.isEmpty) = true →
      output = lines := by
    intro output lines empty
    obtain ⟨noOutput, noLines⟩ := Bool.and_eq_true_iff.mp empty
    rw [List.isEmpty_iff.mp noOutput, List.isEmpty_iff.mp noLines]
  simp only [standardInputCompare, SameText, beq_iff_eq, Bool.or_eq_true]
  constructor
  · intro accepted
    split at accepted
    · exact .inl (.inl ‹_›)
    · split at accepted
      · exact .inl (.inr (.inl ‹_›))
      · split at accepted
        · exact .inl (.inr (.inr (.inl ‹_›)))
        · split at accepted
          · rename_i last
            rcases last with same | close
            · exact .inl (.inr (.inr (.inr same)))
            · exact .inr close
          · exact .inl (.inr (.inr (.inr (bothEmpty _ _ accepted))))
  · rintro ((custom | single | lines | filtered) | close)
    · rw [if_pos custom]
    · simp [single]
    · simp [lines]
    · simp [filtered]
    · simp [close]

end Texts

section Floats

variable {F : Type} {n : Numerics F} {ofInt : Int → F}

theorem integerLines_filterLen {lines : List Text} (valid : IntegerLines lines) :
    IntegerLines (filterLen lines) :=
  fun line there => valid line (List.mem_filter.mp there).1

theorem integerLines_splitExpected {groundTruth : Text}
    (valid : IntegerLines (groundTruth.splitOn '\n')) :
    IntegerLines (splitExpected groundTruth) := by
  intro line there
  obtain ⟨full, member, rfl⟩ := List.mem_map.mp there
  rw [strip, strip, trim_trim]
  exact integerLines_filterLen valid full member

theorem mapM_float_iff (documented : n.Documented ofInt) {lines : List Text}
    (valid : IntegerLines lines) {floats : List F} :
    lines.mapM n.float = some floats ↔ Converts n lines ∧ floats = (integers lines).map ofInt := by
  induction lines generalizing floats with
  | nil =>
    rw [List.mapM_nil]
    constructor
    · intro read
      exact ⟨fun line there => absurd there List.not_mem_nil, (Option.some.inj read).symm⟩
    · rintro ⟨-, rfl⟩
      rfl
  | cons line lines ih =>
    have later : IntegerLines lines :=
      fun other there => valid other (List.mem_cons_of_mem line there)
    cases taken : n.float line with
    | none => simp [List.mapM_cons, Converts, taken]
    | some x =>
      obtain ⟨z, literal⟩ : ∃ z, readInt (strip line) = some z := by
        refine (valid line List.mem_cons_self).resolve_left (fun blank => ?_)
        rw [documented.float_blank line blank] at taken
        cases taken
      have values : integers (line :: lines) = z :: integers lines := by
        rw [integers, lineValues_cons, ← strip, literal]
        rfl
      rw [List.mapM_cons, taken, values, documented.float_int line z x literal taken,
        Option.bind_eq_bind, Option.bind_some]
      constructor
      · intro read
        obtain ⟨rest, readRest, same⟩ := Option.bind_eq_some_iff.mp read
        obtain ⟨converts, rfl⟩ := (ih later).mp readRest
        refine ⟨?_, (Option.some.inj same).symm⟩
        simpa [Converts, taken] using converts
      · rintro ⟨converts, rfl⟩
        have readRest := (ih later).mpr ⟨fun other there =>
          converts other (List.mem_cons_of_mem line there), rfl⟩
        simp [readRest]

theorem allclose_iff {xs ys : List Int} :
    ((xs.map ofInt).length == (ys.map ofInt).length && allclose n (xs.map ofInt) (ys.map ofInt)) =
      true ↔ List.Forall₂ (fun x y => n.isclose (ofInt x) (ofInt y) = true) xs ys := by
  rw [List.forall₂_iff_zip]
  simp [allclose, List.zip_map]

theorem floatCompare_iff (documented : n.Documented ofInt) {output : List Text} {groundTruth : Text}
    (validOutput : IntegerLines output) (validExpected : IntegerLines (groundTruth.splitOn '\n')) :
    floatCompare n (filterLen output) (splitExpected groundTruth) = true ↔
      FloatsCompared n output groundTruth ∧
      List.Forall₂ (fun x y => n.isclose (ofInt x) (ofInt y) = true) (integers output)
        (integers (groundTruth.splitOn '\n')) := by
  have readOutput := @mapM_float_iff _ _ _ documented _ (integerLines_filterLen validOutput)
  have readExpected := @mapM_float_iff _ _ _ documented _ (integerLines_splitExpected validExpected)
  simp only [integers_filterLen] at readOutput
  simp only [integers_splitExpected] at readExpected
  rw [floatCompare, FloatsCompared]
  cases digits : allInts n (filterLen output) (splitExpected groundTruth) with
  | true => simp
  | false =>
    rw [if_neg Bool.false_ne_true, ← allclose_iff]
    constructor
    · intro accepted
      split at accepted
      · rename_i outputFloat gtFloat left right
        obtain ⟨takenOutput, rfl⟩ := readOutput.mp left
        obtain ⟨takenExpected, rfl⟩ := readExpected.mp right
        exact ⟨⟨rfl, takenOutput, takenExpected⟩, accepted⟩
      · cases accepted
    · rintro ⟨⟨-, takenOutput, takenExpected⟩, close⟩
      simp only [readOutput.mpr ⟨takenOutput, rfl⟩, readExpected.mpr ⟨takenExpected, rfl⟩]
      exact close

/-- When the comparison accepts exactly the outputs with the expected integers: they are the same
and the texts or the floats are found equal, or they differ and the floats are not compared or not
close. -/
theorem standardInputCompare_integers_iff (documented : n.Documented ofInt)
    {rawTrueOutput groundTruth : Text} (validOutput : IntegerLines (splitlines rawTrueOutput))
    (validExpected : IntegerLines (groundTruth.splitOn '\n')) :
    (standardInputCompare n rawTrueOutput groundTruth = true ↔
      outputIntegers rawTrueOutput = expectedIntegers groundTruth) ↔
    (outputIntegers rawTrueOutput = expectedIntegers groundTruth ∧
      (SameText (splitlines rawTrueOutput) groundTruth ∨
        FloatsCompared n (splitlines rawTrueOutput) groundTruth)) ∨
    (outputIntegers rawTrueOutput ≠ expectedIntegers groundTruth ∧
      ¬(FloatsCompared n (splitlines rawTrueOutput) groundTruth ∧
        List.Forall₂ (fun x y => n.isclose (ofInt x) (ofInt y) = true)
          (outputIntegers rawTrueOutput) (expectedIntegers groundTruth))) := by
  rw [standardInputCompare_iff,
    floatCompare_iff documented validOutput validExpected, ← outputIntegers, ← expectedIntegers]
  by_cases same : outputIntegers rawTrueOutput = expectedIntegers groundTruth
  · have close : List.Forall₂ (fun x y => n.isclose (ofInt x) (ofInt y) = true)
      (outputIntegers rawTrueOutput)
        (expectedIntegers groundTruth) := by
      rw [same]
      exact List.forall₂_same.mpr (fun z _ => documented.close_self z)
    rw [and_iff_left close]
    simp only [same, true_and, iff_true, ne_eq, not_true_eq_false, false_and, or_false]
  · have different : ¬SameText (splitlines rawTrueOutput) groundTruth := fun equal =>
      same (integers_of_sameText (newline_notMem_splitlines rawTrueOutput) equal)
    simp only [same, different, false_or, iff_false, false_and, ne_eq, not_false_eq_true, true_and]

def exactNumerics : Numerics ℚ where
  float line := (readInt (strip line)).map (fun z => (z : ℚ))
  isclose x y := decide (|x - y| ≤ 1 / 10 ^ 8 + 1 / 10 ^ 5 * |y|)
  isDigit := Char.isDigit

theorem exactNumerics_documented : exactNumerics.Documented (fun z => (z : ℚ)) where
  float_int line z x literal taken := by simpa [exactNumerics, literal, eq_comm] using taken
  float_blank line blank := by simp [exactNumerics, blank, readInt_nil]
  close_self z := by
    simp only [exactNumerics, decide_eq_true_eq, sub_self, abs_zero]
    positivity

theorem standardInputCompare_signed :
    standardInputCompare exactNumerics "+7\n\n-12\n".toList "7\n -12".toList = true ↔
      outputIntegers "+7\n\n-12\n".toList = expectedIntegers "7\n -12".toList := by
  have digits : allInts exactNumerics (filterLen (splitlines "+7\n\n-12\n".toList))
      (splitExpected "7\n -12".toList) = false := by decide +kernel
  have output : Converts exactNumerics (filterLen (splitlines "+7\n\n-12\n".toList)) := by
    decide +kernel
  have expected : Converts exactNumerics (splitExpected "7\n -12".toList) := by
    decide +kernel
  exact (standardInputCompare_integers_iff exactNumerics_documented (by decide +kernel)
    (by decide +kernel)).mpr
    (.inl ⟨by decide +kernel, .inr ⟨digits, output, expected⟩⟩)

/-- A sign sends the line to the comparison of floats, which accepts a wrong number; without one,
leading zeros make the right number fail. -/
theorem standardInputCompare_wrong :
    IntegerLines (splitlines "-1000000".toList) ∧ IntegerLines ("-1000001".toList.splitOn '\n') ∧
    standardInputCompare exactNumerics "-1000000".toList "-1000001".toList = true ∧
    outputIntegers "-1000000".toList ≠ expectedIntegers "-1000001".toList ∧
    IntegerLines (splitlines "007".toList) ∧ IntegerLines ("7".toList.splitOn '\n') ∧
    standardInputCompare exactNumerics "007".toList "7".toList = false ∧
    outputIntegers "007".toList = expectedIntegers "7".toList := by
  refine ⟨?_, ?_, ?_, ?_, ?_, ?_, ?_, ?_⟩ <;> decide +kernel

end Floats

section Run

def truncatefn (s : Text) (length : Nat) : Text :=
  if s.length ≤ length then s
  else s.take (length / 2) ++ "...(truncated) ...".toList ++ s.drop (s.length - (length + 1) / 2)

inductive StdinMetadata where
  | empty
  | error (raised : PyError)
  | wrongAnswer (output expected inputs : Text)

variable {F Solution : Type} (n : Numerics F) (execute : Solution → Text → Py Text × Solution)

/-- The body of the loop of `run_test` for a program on standard input; `execute` runs it. -/
def standardInputRun (solution : Solution) (input groundTruth : Text) :
    TestRun StdinMetadata × Solution :=
  match execute solution input with
  | (.error raised, next) => (.result .failed (.error raised), next)
  | (.ok rawTrueOutput, next) =>
    if standardInputCompare n rawTrueOutput groundTruth then (.result .passed .empty, next)
    else
      (.result .wrong (.wrongAnswer (truncatefn rawTrueOutput 200) (truncatefn groundTruth 200)
        (truncatefn input 300)), next)

/-- The sandbox in which tests without a function name are run in this way. -/
def withStandardInput (box : Sandbox Text Text StdinMetadata Solution) :
    Sandbox Text Text StdinMetadata Solution :=
  { box with runOne := fun fnName solution input groundTruth =>
      match fnName with
      | none => standardInputRun n execute solution input groundTruth
      | some _ => box.runOne fnName solution input groundTruth }

variable {n execute}

/-- A test on standard input passes when the program returns and the comparison accepts what it
printed. -/
theorem passes_withStandardInput_iff {box : Sandbox Text Text StdinMetadata Solution}
    {solution next : Solution} {input groundTruth : Text} :
    Passes (withStandardInput n execute box) none solution input groundTruth next ↔
      ∃ rawTrueOutput, execute solution input = (.ok rawTrueOutput, next) ∧
        standardInputCompare n rawTrueOutput groundTruth = true := by
  simp only [Passes, withStandardInput, standardInputRun]
  rcases ran : execute solution input with ⟨output, after⟩
  cases output with
  | error raised => simp
  | ok rawTrueOutput =>
    cases accepted : standardInputCompare n rawTrueOutput groundTruth with
    | false => simp [accepted]
    | true => simp [accepted]

end Run

end Verl.PrimeCode
