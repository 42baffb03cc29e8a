import Verl.Base.Regex
import Verl.Base.Substitute
import Verl.RewardScore.StripString

/-! `grade_answer` of `verl/utils/reward_score/prime_math/__init__.py` with the normalisers it
calls. Letters and digits are the ASCII ones. -/
namespace Verl.GradeAnswer
open Text StripString

section Model

/-- What is called outside the repository, with `none` where it raises: `int`, the LaTeX converter,
and whether sympy simplifies an expression to zero (`none` also where the alarm goes off). -/
structure Tools where
  int : Text → Option Int
  latexToText : Text → Option Text
  simplifiesToZero : Text → Option Bool

/-- `re.search` for a whole text in `\text{}`. A last line break may stand behind it. -/
def enclosedText (expr : Text) : Option Text :=
  match "\\text\x7b".toList.isPrefixOf? expr with
  | none => none
  | some rest =>
    let rest := if rest.getLast? = some '\n' then rest.dropLast else rest
    if rest.getLast? = some '\x7d' ∧ rest.dropLast ≠ [] ∧ '\n' ∉ rest.dropLast then
      some rest.dropLast
    else none

def exceptKeep (answer : Text) : Py Text → Text
  | .ok result => result
  | .error _ => answer

def normalizeAnswer (tools : Tools) (answer : Text) : Text :=
  let answer := strip answer
  let answer := ((enclosedText answer).map strip).getD answer
  exceptKeep answer (primeStripString tools.int answer)

def isInt (x : Double) : Bool :=
  match x.round? with
  | none => false
  | some n =>
    match x.subInt? n with
    | none => false
    | some difference => difference.abs.le (.ofRat (1 / 10 ^ 7))

/-- `(\d)(,)(\d\d\d)($|\D)`, with the comma left out. -/
def commaRule : Rule Char
  | d :: ',' :: a :: b :: c :: rest =>
    if [d, a, b, c].all Char.isDigit then
      match rest with
      | [] => some ([d, a, b, c], [])
      | x :: rest => if x.isDigit then none else some ([d, a, b, c, x], rest)
    else none
  | _ => none

def stripProperlyFormattedCommas (expr : Text) : Text := subAll commaRule expr

def strIsInt (x : Text) : Bool :=
  match float? (stripProperlyFormattedCommas x) with
  | none => false
  | some x => isInt x

def strToInt (x : Text) : Py Int :=
  match float? (replace [','] [] x) with
  | none => .error (.value "could not convert string to float")
  | some x =>
    match x.int? with
    | none => .error (.runtime "cannot convert float infinity to integer")
    | some n => .ok n

def dropWord (word s : Text) : Text := (word.isPrefixOf? s).getD s

def dropPower : Text → Text
  | '^' :: rest =>
    if (rest.takeWhile Char.isDigit) = [] then '^' :: rest else rest.dropWhile Char.isDigit
  | s => s

def unitRule (unit : Text) : Rule Char := fun s =>
  match unit.isPrefixOf? s with
  | none => none
  | some rest =>
    some ([], dropPower ((dropWord "s".toList (dropWord "es".toList rest)).dropWhile (· = ' ')))

def degreeRule : Rule Char
  | '^' :: rest =>
    ("\\circ".toList.isPrefixOf? (rest.dropWhile (· = ' '))).map (fun rest => ([], rest))
  | _ => none

def thinSpaceRule : Rule Char
  | ',' :: '\\' :: '!' :: rest => some ([], rest.dropWhile (· = ' '))
  | _ => none

def minusRule : Rule Char
  | '-' :: rest => some (['-'], rest.dropWhile (· = ' '))
  | _ => none

def mixedNumberRule : Rule Char
  | d :: ' ' :: rest =>
    match rest.dropWhile (· = ' ') with
    | e :: rest => if d.isDigit ∧ e.isDigit then some ([d, '+', e], rest) else none
    | [] => none
  | _ => none

def words : List (Text × Text) :=
  [("\\%".toList, "%".toList), ("\\$".toList, "$".toList), ("$".toList, []), ("%".toList, []),
    (" or ".toList, " , ".toList), (" and ".toList, " , ".toList),
    ("million".toList, "*10^6".toList),
    ("billion".toList, "*10^9".toList), ("trillion".toList, "*10^12".toList)]

def unitNames : List Text :=
  ["degree", "cm", "centimeter", "meter", "mile", "second", "minute", "hour", "day", "week",
    "month", "year", "foot", "feet", "inch", "yard", "liter"].map String.toList

def dropUnits (expr : Text) : Text :=
  unitNames.foldl (fun expr unit => sub (unitRule unit) expr) expr

def dropBraces (expr : Text) : Text :=
  if expr.head? = some '\x7b' ∧ expr.getLast? = some '\x7d' then (expr.drop 1).dropLast else expr

/-- `str(int(round(float(expr))))` where that is an integer. -/
def roundFloat (expr : Text) : Text :=
  match float? expr with
  | none => expr
  | some x =>
    if isInt x then
      match x.round? with
      | some n => ofInt n
      | none => expr
    else expr

def parseLatex (tools : Tools) (expr : Text) : Option Text :=
  let expr := replaceAll [("\\tfrac".toList, "\\frac".toList), ("\\dfrac".toList, "\\frac".toList),
    ("\\frac".toList, " \\frac".toList)] expr
  (tools.latexToText expr).map (fun expr =>
    strip (replaceAll [("√".toList, "sqrt".toList), ("π".toList, "pi".toList),
      ("∞".toList, "inf".toList), ("∪".toList, "U".toList), ("·".toList, "*".toList),
      ("×".toList, "*".toList)] expr))

def readLatex (tools : Tools) (expr : Text) : Text :=
  if '\\' ∈ expr then (parseLatex tools expr).getD expr else expr

def normalize (tools : Tools) (expr : Text) : Py Text := do
  let expr := (enclosedText expr).getD expr
  let expr := sub degreeRule (dropUnits (replaceAll words expr))
  let expr := sub thinSpaceRule (dropBraces expr)
  let expr := readLatex tools (roundFloat expr)
  let expr := (sub mixedNumberRule (sub minusRule expr)).map Char.toLower
  if strIsInt expr then return ofInt (← strToInt expr) else return expr

def countUnknownLettersInExpr (expr : Text) : Nat :=
  ((replace "frac".toList [] (replace "sqrt".toList [] expr)).filter Char.isAlpha).dedup.length

def badPower : Text → Bool
  | '^' :: rest =>
    let digits := rest.takeWhile Char.isDigit
    2 ≤ digits.length || (digits ≠ [] && (rest.dropWhile Char.isDigit).head? == some '^')
  | _ => false

def shouldAllowEval (expr : Text) : Bool :=
  countUnknownLettersInExpr expr ≤ 2 && !("^\x7b".toList <:+: expr) && !("^(".toList <:+: expr) &&
    !expr.tails.any badPower

def differenceText (groundTruth given : Text) : Text :=
  ['('] ++ groundTruth ++ [')', '-', '('] ++ given ++ [')']

def areEqualUnderSympy (tools : Tools) (groundTruth given : Text) : Bool :=
  let expr := differenceText groundTruth given
  shouldAllowEval expr && tools.simplifiesToZero (replace ['^'] ['*', '*'] expr) == some true

def tupleChars : List Char := ['(', ')', '[', ']']

def splitTuple (expr : Text) : List Text :=
  let expr := stripProperlyFormattedCommas expr
  let inner := (expr.drop 1).dropLast
  if expr = [] then []
  else if 2 < expr.length && expr.head?.any tupleChars.contains && expr.getLast?.any tupleChars.contains &&
      tupleChars.all (fun c => !inner.contains c) then (splitOn [','] inner).map strip
  else [expr]

def numerator (s : Text) : Bool :=
  (s ≠ [] && s.all Char.isDigit) ||
    (s.dropLast ≠ [] && s.dropLast.all Char.isDigit && s.getLast? ≠ some '\n')

def nonzeroDigits (s : Text) : Bool := s.all Char.isDigit && s.any (· ≠ '0')

def denominator (s : Text) : Bool :=
  let whole (s : Text) := nonzeroDigits s || (nonzeroDigits s.dropLast && s.getLast? ≠ some '\n')
  whole s || (s.getLast? == some '\n' && whole s.dropLast)

def isFrac (expr : Text) : Bool :=
  let body := dropWord ['-'] expr
  (cuts body).any (fun (left, right) => right.head? == some '/' && numerator left &&
    denominator (right.drop 1))

def gradeElem (tools : Tools) (groundTruth given : Text) : Bool :=
  if isFrac groundTruth && isFrac given then groundTruth == given
  else if strIsInt groundTruth != strIsInt given then false
  else areEqualUnderSympy tools groundTruth given

/-- The loop over the elements, which leaves `is_correct` unbound where there are none. -/
def gradeElems (tools : Tools) (pairs : List (Text × Text)) : Py Bool :=
  if pairs = [] then .error (.unboundLocal "is_correct")
  else .ok (pairs.all (fun (groundTruth, given) => gradeElem tools groundTruth given))

def gradeNormalized (tools : Tools) (groundTruth given : Text) : Py Bool :=
  if groundTruth = given then .ok true
  else if given = [] then .ok false
  else
    let groundTruthElems := splitTuple groundTruth
    let givenElems := splitTuple given
    if 1 < groundTruthElems.length ∧ (groundTruth.head? ≠ given.head? ∨ groundTruth.getLast? ≠ given.getLast?) then .ok false
    else if groundTruthElems.length ≠ givenElems.length then .ok false
    else gradeElems tools (groundTruthElems.zip givenElems)

def gradeAnswer (tools : Tools) (givenAnswer groundTruth : Option Text) : Py Bool :=
  match givenAnswer with
  | none => .ok false
  | some given =>
    if groundTruth.map (normalizeAnswer tools) = some (normalizeAnswer tools given) then .ok true
    else
      match groundTruth with
      | none => do
        let _ ← normalize tools given
        return false
      | some truth => do
        let groundTruthNormalized ← normalize tools truth
        let givenNormalized ← normalize tools given
        gradeNormalized tools groundTruthNormalized givenNormalized

end Model

end Verl.GradeAnswer
