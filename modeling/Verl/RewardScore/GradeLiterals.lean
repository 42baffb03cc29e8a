import Verl.RewardScore.CommaGroups
import Verl.RewardScore.GradeAnswer
import Verl.RewardScore.StripFixedPoints

/-! `grade_answer` of `verl/utils/reward_score/prime_math/__init__.py` on integers that are written
as decimal literals, with or without thousands separators. -/
namespace Verl.GradeAnswer
open Text StripString

section Literals

/-- The decimal literal of an integer, with thousands separators or without. -/
def literal (separated : Bool) (n : Int) : Text :=
  (if n < 0 then ['-'] else []) ++ if separated then grouped (ofNat n.natAbs) else ofNat n.natAbs

theorem literal_false (n : Int) : literal false n = ofInt n := by
  cases n with
  | ofNat n => simp [literal, ofInt]
  | negSucc n => simp [literal, ofInt, Int.negSucc_lt_zero, Int.natAbs_negSucc]

end Literals

section Separated

theorem commaRule_eq : commaRule = commaRuleOf asciiDigit := rfl

theorem stripProperlyFormattedCommas_eq (expr : Text) :
    stripProperlyFormattedCommas expr = stripProperlyFormattedCommasOf asciiDigit expr := by
  rw [stripProperlyFormattedCommas, commaRule_eq, stripProperlyFormattedCommasOf]

theorem literal_true (n : Int) :
    literal true n = (if n < 0 then ['-'] else []) ++ grouped (ofNat n.natAbs) := by
  simp [literal]

theorem ofInt_eq (n : Int) : ofInt n = (if n < 0 then ['-'] else []) ++ ofNat n.natAbs := by
  rw [← literal_false, literal]
  simp

theorem comma_notMem_sign (n : Int) : ',' ∉ if n < 0 then ['-'] else [] := by
  split <;> decide

theorem stripCommas_literal (n : Int) :
    if n.natAbs < 10 ^ 9 then stripProperlyFormattedCommas (literal true n) = ofInt n
    else ',' ∈ stripProperlyFormattedCommas (literal true n) := by
  rw [literal_true, ofInt_eq, stripProperlyFormattedCommas_eq]
  exact stripCommas_grouped asciiDigit (comma_notMem_sign n) n.natAbs

theorem literal_plain (separated : Bool) (n : Int) : Plain (literal separated n) := by
  cases separated with
  | false =>
    rw [literal_false]
    exact plain_ofInt n
  | true =>
    obtain ⟨first, groups, cut, joined, -⟩ := exists_groups (ofNat_ne_nil n.natAbs)
    have digits := digits_ofNat n.natAbs
    rw [cut] at digits
    intro c member
    rw [literal_true, joined, joinGroups, List.mem_append, List.mem_append,
      List.mem_flatten] at member
    rcases member with inSign | inFirst | ⟨group, there, inside⟩
    · right
      right
      split at inSign
      · exact List.mem_singleton.mp inSign
      · cases inSign
    · exact .inl (digits c (List.mem_append_left _ inFirst))
    · obtain ⟨body, member, rfl⟩ := List.mem_map.mp there
      rcases List.mem_cons.mp inside with comma | inBody
      · exact .inr (.inl comma)
      · exact .inl (digits c
          (List.mem_append_right _ (List.mem_flatten.mpr ⟨body, member, inBody⟩)))

theorem filter_joinGroups (digits : ∀ c ∈ first ++ groups.flatten, c.isDigit = true) :
    (joinGroups first groups).filter (· ≠ ',') = first ++ groups.flatten := by
  have kept : ∀ s : Text, (∀ c ∈ s, c.isDigit = true) → s.filter (· ≠ ',') = s := by
    intro s all
    refine List.filter_eq_self.mpr (fun c inside => ?_)
    rw [decide_eq_true_iff]
    exact @comma_ne asciiDigit _ (all c inside)
  rw [joinGroups, List.filter_append,
    kept first (fun c inside => digits c (List.mem_append_left _ inside))]
  congr 1
  have later : ∀ c ∈ groups.flatten, c.isDigit = true :=
    fun c inside => digits c (List.mem_append_right _ inside)
  clear digits
  induction groups with
  | nil => rfl
  | cons group groups ih =>
    rw [List.flatten_cons] at later
    rw [List.map_cons, List.flatten_cons, List.flatten_cons, List.filter_append,
      ih (fun c inside => later c (List.mem_append_right _ inside))]
    simp only [List.filter_cons, ne_eq, not_true_eq_false, decide_false,
      Bool.false_eq_true, if_false]
    rw [kept group (fun c inside => later c (List.mem_append_left _ inside))]

theorem filter_literal (separated : Bool) (n : Int) :
    (literal separated n).filter (· ≠ ',') = ofInt n := by
  have sign : (if n < 0 then ['-'] else [] : Text).filter (· ≠ ',') = if n < 0 then
      ['-'] else [] := by
    split <;> rfl
  obtain ⟨first, groups, cut, joined, -⟩ := exists_groups (ofNat_ne_nil n.natAbs)
  have digits := digits_ofNat n.natAbs
  cases separated with
  | false =>
    rw [literal_false]
    refine List.filter_eq_self.mpr (fun c inside => ?_)
    rw [decide_eq_true_iff]
    rintro rfl
    exact notMem_ofInt (by decide) (by decide) n inside
  | true =>
    rw [cut] at digits
    rw [literal_true, joined, List.filter_append, sign, filter_joinGroups digits, ← cut, ofInt_eq]

theorem eq_of_literal {s t : Bool} {m n : Int} (same : literal s m = literal t n) : m = n := by
  refine ofInt_injective ?_
  rw [← filter_literal s m, same, filter_literal]

end Separated

section Plain

variable {tools : Tools} {s : Text}

theorem enclosedText_of_plain (plain : Plain s) : enclosedText s = none := by
  have absent : "\\text\x7b".toList.isPrefixOf? s = none := by
    cases found : "\\text\x7b".toList.isPrefixOf? s with
    | none => rfl
    | some rest =>
      have same := List.isPrefixOf?_eq_some_iff_append_eq.mp found
      exact absurd (same ▸ List.mem_append_left _ (by decide))
        (plain.notMem (show ¬PlainChar '\\' by decide))
  rw [enclosedText, absent]

theorem normalizeAnswer_of_plain (plain : Plain s) : normalizeAnswer tools s = s := by
  simp only [normalizeAnswer, strip_of_plain plain, enclosedText_of_plain plain, Option.map_none,
    Option.getD_none, primeStripString_of_plain tools.int plain, exceptKeep]

theorem replaceAll_of_plain {pairs : List (Text × Text)}
    (marked : ∀ pair ∈ pairs, ∃ c ∈ pair.1, ¬PlainChar c)
    (plain : Plain s) : replaceAll pairs s = s := by
  induction pairs with
  | nil => rfl
  | cons pair pairs ih =>
    obtain ⟨c, inside, foreign⟩ := marked pair List.mem_cons_self
    have absent : ¬pair.1 <:+: s := fun occurs => plain.notMem foreign (occurs.subset inside)
    rw [replaceAll_cons, replace_of_absent absent]
    exact ih (fun other there => marked other (List.mem_cons_of_mem pair there))

/-- A rule that asks for a character which is not there changes nothing. -/
theorem sub_of_plain {rule : Rule Char} (c : Char) (foreign : ¬PlainChar c)
    (asks : ∀ b new rest, rule b = some (new, rest) → c ∈ b) (plain : Plain s) :
    sub rule s = s := by
  refine sub_of_nowhere (fun b inside => ?_)
  cases found : rule b with
  | none => rfl
  | some cut => exact absurd (inside.subset (asks b cut.1 cut.2 found)) (plain.notMem foreign)

theorem unitRule_some {unit b new rest : Text} (found : unitRule unit b = some (new, rest)) :
    unit ⊆ b := by
  rw [unitRule] at found
  split at found
  · cases found
  · rename_i behind here
    rw [← List.isPrefixOf?_eq_some_iff_append_eq.mp here]
    exact List.subset_append_left unit behind

theorem dropUnits_of_plain (plain : Plain s) : dropUnits s = s := by
  have letters := exists_foreign unitNames (by decide)
  have each : ∀ units : List Text, (∀ unit ∈ units, ∃ c ∈ unit, ¬PlainChar c) →
      units.foldl (fun expr unit => sub (unitRule unit) expr) s = s := by
    intro units letters
    induction units with
    | nil => rfl
    | cons unit units ih =>
      obtain ⟨c, inside, foreign⟩ := letters unit List.mem_cons_self
      rw [List.foldl_cons,
        sub_of_plain c foreign (fun b new rest found => unitRule_some found inside) plain]
      exact ih (fun other there => letters other (List.mem_cons_of_mem unit there))
  exact each unitNames letters

theorem degreeRule_asks (b new rest : Text) (found : degreeRule b = some (new, rest)) :
    '^' ∈ b := by
  rw [degreeRule.eq_def] at found
  split at found
  · exact List.mem_cons_self
  · cases found

theorem thinSpaceRule_asks (b new rest : Text) (found : thinSpaceRule b = some (new, rest)) :
    '!' ∈ b := by
  rw [thinSpaceRule.eq_def] at found
  split at found
  · simp
  · cases found

theorem mixedNumberRule_asks (b new rest : Text) (found : mixedNumberRule b = some (new, rest)) :
    ' ' ∈ b := by
  rw [mixedNumberRule.eq_def] at found
  split at found
  · simp
  · cases found

theorem sub_minusRule_of_plain (plain : Plain s) : sub minusRule s = s := by
  refine sub_of_kept (fun b inside new rest found => ?_)
  rw [minusRule.eq_def] at found
  split at found
  · rename_i behind
    cases found
    have noBlank : behind.dropWhile (· = ' ') = behind := by
      cases behind with
      | nil => rfl
      | cons c behind =>
        have other : c ≠ ' ' := by
          rintro rfl
          exact plain.notMem (show ¬PlainChar ' ' by decide) (inside.subset (by simp))
        exact List.dropWhile_cons_of_neg (by simpa using other)
    rw [noBlank]
    rfl
  · cases found

/-- Of the normaliser only the rounding and the reading as an integer are left. -/
theorem normalize_of_plain (plain : Plain s) (rounded : Plain (roundFloat s)) :
    normalize tools s =
      if strIsInt (roundFloat s) then
        (strToInt (roundFloat s)).map ofInt
      else .ok (roundFloat s) := by
  have marked : ∀ pair ∈ words, ∃ c ∈ pair.1, ¬PlainChar c :=
    fun pair member =>
      exists_foreign (words.map Prod.fst) (by decide) pair.1 (List.mem_map_of_mem member)
  have brace : dropBraces s = s := by
    rw [dropBraces, if_neg]
    rintro ⟨head, -⟩
    exact plain.notMem (show ¬PlainChar '\x7b' by decide) (List.mem_of_mem_head? head)
  have latex : readLatex tools (roundFloat s) = roundFloat s := by
    rw [readLatex, if_neg (rounded.notMem (by decide))]
  simp only [normalize, enclosedText_of_plain plain, Option.getD_none,
    replaceAll_of_plain marked plain, dropUnits_of_plain plain,
    sub_of_plain '^' (by decide) degreeRule_asks plain, brace,
    sub_of_plain '!' (by decide) thinSpaceRule_asks plain, latex, sub_minusRule_of_plain rounded,
    sub_of_plain ' ' (by decide) mixedNumberRule_asks rounded, toLower_map_of_plain rounded]
  split
  · cases strToInt (roundFloat s) <;> rfl
  · rfl

end Plain

section Reading

variable {tools : Tools} {n k : Int} {x : Text}

theorem isInt_finite (fixed : Double.ofRat k = .finite k) : isInt (.finite k) = true := by
  have zero : Double.ofRat ((k : ℚ) - k) = .finite 0 := by
    rw [sub_self]
    rfl
  simp only [isInt, Double.round?_int, Double.subInt?, fixed, zero, Double.abs, abs_zero]
  exact Double.ofRat_nonneg (by norm_num)

theorem stripCommas_ofInt (n : Int) : stripProperlyFormattedCommas (ofInt n) = ofInt n :=
  (stripProperlyFormattedCommas_eq _).trans
    (stripCommas_plain (notMem_ofInt (by decide) (by decide) n))

theorem strIsInt_ofInt (n : Int) : strIsInt (ofInt n) = isInt (.ofRat n) := by
  simp only [strIsInt, stripCommas_ofInt, float?_ofInt]

theorem roundFloat_finite (value : Double.ofRat n = .finite k)
    (fixed : Double.ofRat k = .finite k) :
    roundFloat (ofInt n) = ofInt k := by
  simp only [roundFloat, float?_ofInt, value, isInt_finite fixed, if_true, Double.round?_int]

theorem roundFloat_inf {negative : Bool} (value : Double.ofRat n = .inf negative) :
    roundFloat (ofInt n) = ofInt n := by
  simp only [roundFloat, float?_ofInt, value]
  rfl

theorem strToInt_literal (separated : Bool) (value : Double.ofRat n = .finite k) :
    strToInt (literal separated n) = .ok k := by
  simp only [strToInt, replace_single_nil, filter_literal, float?_ofInt, value, Double.int?_int]

theorem commaRule_copies (s new rest : Text) (found : commaRule s = some (new, rest)) :
    new ⊆ s ∧ rest ⊆ s := by
  rw [commaRule.eq_def] at found
  split at found
  · split at found
    · split at found
      · cases found
        simp
      · split at found
        · cases found
        · cases found
          constructor
          · intro c member
            simp at member ⊢
            tauto
          · intro c member
            simp [member]
    · cases found
  · cases found

theorem stripCommas_plainText (plain : Plain x) : Plain (stripProperlyFormattedCommas x) :=
  subUntil_induction
    (fun _ here c member => here c
    (sub_subset (commaRule_eq ▸ commaRule_shortens) commaRule_copies _ member)) plain _

theorem stripCommas_stripCommas (x : Text) :
    stripProperlyFormattedCommas (stripProperlyFormattedCommas x) =
      stripProperlyFormattedCommas x :=
  subUntil_of_fixed (sub_subUntil (commaRule_eq ▸ commaRule_shortens) (Nat.lt_succ_self _)) _

theorem splitTuple_of_plain (plain : Plain x) (some : stripProperlyFormattedCommas x ≠ []) :
    splitTuple x = [stripProperlyFormattedCommas x] := by
  have clean := stripCommas_plainText plain
  simp only [splitTuple, if_neg some]
  rw [if_neg]
  intro tuple
  simp only [Bool.and_eq_true, Option.any_eq_true, List.contains_iff_mem] at tuple
  obtain ⟨⟨⟨-, c, head, bracket⟩, -⟩, -⟩ := tuple
  have foreign : tupleChars.all (fun c => !decide (PlainChar c)) = true := by decide
  have other := List.all_eq_true.mp foreign c bracket
  simp [clean c (List.mem_of_mem_head? head)] at other

theorem isFrac_of_plain (plain : Plain x) : isFrac x = false := by
  have body : Plain (dropWord ['-'] x) := by
    rw [dropWord]
    cases found : ['-'].isPrefixOf? x with
    | none => exact plain
    | some rest =>
      rw [← List.isPrefixOf?_eq_some_iff_append_eq.mp found] at plain
      exact plain.of_append.2
  rw [isFrac, List.any_eq_false]
  rintro ⟨left, right⟩ member
  simp only [Bool.and_eq_true, beq_iff_eq]
  rintro ⟨⟨slash, -⟩, -⟩
  have same := mem_cuts.mp member
  have inside : '/' ∈ dropWord ['-'] x :=
    same ▸ List.mem_append_right left (List.mem_of_mem_head? slash)
  exact body.notMem (by decide) inside

theorem zero_of_areEqualUnderSympy {y : Text} (plainX : Plain x) (plainY : Plain y)
    (equal : areEqualUnderSympy tools x y = true) :
    tools.simplifiesToZero (differenceText x y) = some true := by
  have noPower : ¬['^'] <:+: differenceText x y := by
    rw [List.singleton_infix_iff]
    have inX := plainX.notMem (show ¬PlainChar '^' by decide)
    have inY := plainY.notMem (show ¬PlainChar '^' by decide)
    simp [differenceText, inX, inY]
  simp only [areEqualUnderSympy, Bool.and_eq_true, beq_iff_eq, replace_of_absent noPower] at equal
  exact equal.2

def Readable (separated : Bool) (n : Int) : Prop := separated = false ∨ n.natAbs < 10 ^ 9

/-- What `_normalize` and `split_tuple` make of a literal: the nearest float as an integer, or the
literal itself where that is infinite or a comma is left. -/
inductive Form (separated : Bool) (n : Int) : Text → Text → Prop
  | rounded {k : Int} (readable : Readable separated n) (value : Double.ofRat n = .finite k)
    (fixed : Double.ofRat k = .finite k) :
    Form separated n (ofInt k) (ofInt k)
  | infinite {negative : Bool} (plain : separated = false) (value : Double.ofRat n =
    .inf negative) :
    Form separated n (ofInt n) (ofInt n)
  | stuck {elem : Text} (commas : separated = true) (large : 10 ^ 9 ≤ n.natAbs) (plain : Plain elem)
    (comma : ',' ∈ elem)
    (settled : stripProperlyFormattedCommas elem = elem) (inText : ',' ∈ literal separated n) :
    Form separated n (literal separated n) elem

theorem strIsInt_rounded (fixed : Double.ofRat k = .finite k) : strIsInt (ofInt k) = true := by
  rw [strIsInt_ofInt, fixed, isInt_finite fixed]

theorem strIsInt_infinite {negative : Bool} (value : Double.ofRat n = .inf negative) :
    strIsInt (ofInt n) = false := by
  rw [strIsInt_ofInt, value]
  rfl

theorem splitTuple_ofInt (k : Int) : splitTuple (ofInt k) = [ofInt k] := by
  have some : stripProperlyFormattedCommas (ofInt k) ≠ [] := by
    rw [stripCommas_ofInt, ofInt_eq]
    simp [ofNat_ne_nil]
  rw [splitTuple_of_plain (plain_ofInt k) some, stripCommas_ofInt]

theorem normalize_ofInt_finite (value : Double.ofRat n = .finite k)
    (fixed : Double.ofRat k = .finite k) :
    normalize tools (ofInt n) = .ok (ofInt k) := by
  have rounded := roundFloat_finite value fixed
  have read := strToInt_literal false fixed
  rw [literal_false] at read
  rw [normalize_of_plain (plain_ofInt n) (rounded ▸ plain_ofInt k), rounded, strIsInt_rounded fixed,
    if_pos rfl, read]
  rfl

theorem normalize_ofInt_inf {negative : Bool} (value : Double.ofRat n = .inf negative) :
    normalize tools (ofInt n) = .ok (ofInt n) := by
  have kept := roundFloat_inf value
  rw [normalize_of_plain (plain_ofInt n) (kept.symm ▸ plain_ofInt n), kept, strIsInt_infinite value]
  rfl

theorem roundFloat_comma (plain : Plain x) (comma : ',' ∈ x) : roundFloat x = x := by
  simp only [roundFloat, float?_comma plain comma]

theorem finite_of_small (small : n.natAbs < 10 ^ 9) : Double.ofRat n = .finite n :=
  Double.ofRat_int_small (small.trans (by norm_num))

theorem exists_form (separated : Bool) (n : Int) :
    ∃ text elem, normalize tools (literal separated n) = .ok text ∧ splitTuple text = [elem] ∧
      Form separated n text elem := by
  by_cases comma : ',' ∈ literal separated n
  · have commas : separated = true := by
      cases separated with
      | true => rfl
      | false =>
        rw [literal_false] at comma
        exact absurd comma (notMem_ofInt (by decide) (by decide) n)
    subst commas
    have plain := literal_plain true n
    have kept := roundFloat_comma plain comma
    have stripped := stripCommas_literal n
    by_cases small : n.natAbs < 10 ^ 9
    · rw [if_pos small] at stripped
      have value := finite_of_small small
      have isInteger : strIsInt (literal true n) = true := by
        simp only [strIsInt, stripped, float?_ofInt, value, isInt_finite value]
      refine ⟨ofInt n, ofInt n, ?_, splitTuple_ofInt n, .rounded (.inr small) value value⟩
      rw [normalize_of_plain plain (kept.symm ▸ plain), kept, if_pos isInteger,
        strToInt_literal true value]
      rfl
    · rw [if_neg small] at stripped
      have clean := stripCommas_plainText plain
      have notInteger : strIsInt (literal true n) = false := by
        simp only [strIsInt, float?_comma clean stripped]
      refine ⟨literal true n, stripProperlyFormattedCommas (literal true n), ?_, ?_,
        .stuck rfl (Nat.le_of_not_lt small) clean stripped (stripCommas_stripCommas _) comma⟩
      · rw [normalize_of_plain plain (kept.symm ▸ plain), kept, notInteger]
        rfl
      · exact splitTuple_of_plain plain (List.ne_nil_of_mem stripped)
  · have same : literal separated n = ofInt n := by
      rw [← filter_literal separated n, List.filter_eq_self.mpr]
      intro c member
      rw [decide_eq_true_iff]
      rintro rfl
      exact comma member
    have readable : Readable separated n := by
      cases separated with
      | false => exact .inl rfl
      | true =>
        by_contra large
        have stripped := stripCommas_literal n
        rw [if_neg (fun small => large (.inr small)), stripProperlyFormattedCommas_eq,
          stripCommas_plain comma] at stripped
        exact comma stripped
    rw [same]
    rcases Double.ofRat_int_cases n with ⟨k, value, fixed, -⟩ | ⟨negative, value⟩
    · exact ⟨ofInt k, ofInt k, normalize_ofInt_finite value fixed, splitTuple_ofInt k,
        .rounded readable value fixed⟩
    · refine ⟨ofInt n, ofInt n, normalize_ofInt_inf value, splitTuple_ofInt n, .infinite ?_ value⟩
      rcases readable with plain | small
      · exact plain
      · cases (finite_of_small small).symm.trans value

end Reading

section Grading

variable {tools : Tools} {m n : Int} {text text' elem elem' : Text}

/-- What sympy is relied on for: a difference of two integers is zero only where they are equal, and
one with a tuple in it is not. -/
structure SympyReads (tools : Tools) : Prop where
  integers : ∀ a b : Int, tools.simplifiesToZero (differenceText (ofInt a) (ofInt b)) = some true →
    a = b
  tuples : ∀ x y : Text, Plain x → Plain y → ',' ∈ x ∨ ',' ∈ y →
    tools.simplifiesToZero (differenceText x y) ≠ some true

theorem gradeNormalized_single (splitText : splitTuple text = [elem])
    (splitText' : splitTuple text' = [elem']) (plain : Plain elem) :
    gradeNormalized tools text text' = .ok true ↔
      text = text' ∨ (strIsInt elem = strIsInt elem' ∧
        areEqualUnderSympy tools elem elem' = true) := by
  have nonempty : text' ≠ [] := by
    rintro rfl
    cases splitText'
  rw [gradeNormalized]
  by_cases same : text = text'
  · simp [same]
  · rw [if_neg same, if_neg nonempty]
    simp only [splitText, splitText', List.length_singleton, Nat.lt_irrefl, false_and, if_false,
      ne_eq, not_true_eq_false]
    simp only [gradeElems, gradeElem, isFrac_of_plain plain, List.zip_cons_cons, List.zip_nil_right,
      List.all_cons, List.all_nil]
    simp [same]

theorem Form.plain {separated : Bool} (form : Form separated n text elem) : Plain elem := by
  cases form with
  | rounded => exact plain_ofInt _
  | infinite => exact plain_ofInt _
  | stuck _ _ plain => exact plain

def SameFloat (m n : Int) : Prop :=
  ∃ k : Int, Double.ofRat m = .finite k ∧ Double.ofRat n = .finite k

variable {s t : Bool}

theorem eq_of_ofInt_infinite {k : Int} {negative : Bool} (fixed : Double.ofRat k = .finite k)
    (value : Double.ofRat n = .inf negative) : ofInt k ≠ ofInt n := by
  intro same
  rw [ofInt_injective same, value] at fixed
  cases fixed

theorem Form.text_ne_stuck {text : Text} (comma : ',' ∈ text) (k : Int) : ofInt k ≠ text := by
  rintro rfl
  exact notMem_ofInt (by decide) (by decide) k comma

/-- Two different literals whose normal forms are the same text have one float. -/
theorem sameFloat_of_text (truth : Form t n text elem) (given : Form s m text' elem')
    (differ : literal t n ≠ literal s m)
    (same : text = text') : Readable s m ∧ Readable t n ∧ SameFloat m n := by
  cases truth with
  | @rounded k readable value fixed =>
    cases given with
    | @rounded k' readable' value' fixed' =>
      obtain rfl := ofInt_injective same
      exact ⟨readable', readable, k, value', value⟩
    | infinite plain' value' => exact absurd same (eq_of_ofInt_infinite fixed value')
    | stuck _ _ _ _ _ inText => exact absurd same (Form.text_ne_stuck inText k)
  | infinite plain value =>
    cases given with
    | rounded readable' value' fixed' => exact absurd same.symm (eq_of_ofInt_infinite fixed' value)
    | infinite plain' value' =>
      rw [plain, plain', literal_false, literal_false] at differ
      exact absurd same differ
    | stuck _ _ _ _ _ inText => exact absurd same (Form.text_ne_stuck inText n)
  | stuck _ _ _ _ _ inText =>
    cases given with
    | rounded => exact absurd same.symm (Form.text_ne_stuck inText _)
    | infinite => exact absurd same.symm (Form.text_ne_stuck inText _)
    | stuck => exact absurd same differ

theorem sameFloat_of_zero (reads : SympyReads tools) (truth : Form t n text elem)
    (given : Form s m text' elem')
    (differ : literal t n ≠ literal s m) (flags : strIsInt elem = strIsInt elem')
    (zero : tools.simplifiesToZero (differenceText elem elem') = some true) :
    Readable s m ∧ Readable t n ∧ SameFloat m n := by
  have plain := truth.plain
  have plain' := given.plain
  cases truth with
  | @rounded k readable value fixed =>
    rw [strIsInt_rounded fixed] at flags
    cases given with
    | @rounded k' readable' value' fixed' =>
      obtain rfl := reads.integers k k' zero
      exact ⟨readable', readable, k, value', value⟩
    | infinite _ value' =>
      rw [strIsInt_infinite value'] at flags
      cases flags
    | stuck _ _ _ comma => exact absurd zero (reads.tuples _ _ plain plain' (.inr comma))
  | infinite unseparated value =>
    rw [strIsInt_infinite value] at flags
    cases given with
    | rounded _ _ fixed' =>
      rw [strIsInt_rounded fixed'] at flags
      cases flags
    | infinite unseparated' _ =>
      rw [unseparated, unseparated', literal_false, literal_false,
        reads.integers n m zero] at differ
      exact absurd rfl differ
    | stuck _ _ _ comma => exact absurd zero (reads.tuples _ _ plain plain' (.inr comma))
  | stuck _ _ _ comma => exact absurd zero (reads.tuples _ _ plain plain' (.inl comma))

theorem Form.rounded_of_sameFloat (form : Form s m text elem) (readable : Readable s m) {k : Int}
    (value : Double.ofRat m = .finite k) : text = ofInt k := by
  cases form with
  | rounded _ value' _ =>
    have same := Double.finite.inj (value.symm.trans value')
    rw [Int.cast_inj.mp same]
  | infinite _ value' => cases value.symm.trans value'
  | stuck commas large =>
    rcases readable with plain | small
    · cases commas.symm.trans plain
    · omega

theorem gradeAnswer_literals (reads : SympyReads tools) (s t : Bool) (m n : Int) :
    gradeAnswer tools (some (literal s m)) (some (literal t n)) = .ok true ↔
      literal t n = literal s m ∨ (Readable s m ∧ Readable t n ∧ SameFloat m n) := by
  obtain ⟨text, elem, normalized, split, truth⟩ := @exists_form tools t n
  obtain ⟨text', elem', normalized', split', given⟩ := @exists_form tools s m
  rw [gradeAnswer]
  simp only [Option.map_some, normalizeAnswer_of_plain (literal_plain t n),
    normalizeAnswer_of_plain (literal_plain s m), Option.some.injEq]
  by_cases same : literal t n = literal s m
  · simp [same]
  · rw [if_neg same, normalized, normalized', ok_bind, ok_bind,
      gradeNormalized_single split split' truth.plain]
    constructor
    · rintro (equal | ⟨flags, equal⟩)
      · exact .inr (sameFloat_of_text truth given same equal)
      · exact .inr (sameFloat_of_zero reads truth given same flags
          (zero_of_areEqualUnderSympy truth.plain given.plain equal))
    · rintro (equal | ⟨readable, readable', k, value, value'⟩)
      · exact absurd equal same
      · left
        rw [truth.rounded_of_sameFloat readable' value', given.rounded_of_sameFloat readable value]

theorem small_of_literal_eq (same : literal true n = literal false n) : n.natAbs < 10 ^ 9 := by
  by_contra large
  have stripped := stripCommas_literal n
  rw [if_neg large, same, literal_false, stripCommas_ofInt] at stripped
  exact notMem_ofInt (by decide) (by decide) n stripped

/-- Where the grader tells integers apart: equal ones of ten digits or more must both have their
separators or both lack them, and different ones without separators must not become one float. -/
def ToldApart (s t : Bool) (m n : Int) : Prop :=
  (m = n → s = t ∨ m.natAbs < 10 ^ 9) ∧ (m ≠ n → ¬(s = false ∧ t = false ∧ SameFloat m n))

theorem grade_answer_decimal_literals_iff (tools : Tools) (reads : SympyReads tools)
    (s t : Bool) (m n : Int) :
    (gradeAnswer tools (some (literal s m)) (some (literal t n)) = .ok true ↔ m = n) ↔
      ToldApart s t m n := by
  rw [gradeAnswer_literals reads]
  by_cases equal : m = n
  · subst equal
    have finite : m.natAbs < 10 ^ 9 → SameFloat m m :=
      fun small => ⟨m, finite_of_small small, finite_of_small small⟩
    simp only [ToldApart, iff_true, forall_const, ne_eq, not_true_eq_false, false_implies, and_true]
    constructor
    · rintro (same | ⟨readable, readable', -⟩)
      · cases s <;> cases t
        · exact .inl rfl
        · exact .inr (small_of_literal_eq same)
        · exact .inr (small_of_literal_eq same.symm)
        · exact .inl rfl
      · rcases readable with plain | small
        · rcases readable' with plain' | small
          · exact .inl (plain.trans plain'.symm)
          · exact .inr small
        · exact .inr small
    · rintro (rfl | small)
      · exact .inl rfl
      · exact .inr ⟨.inr small, .inr small, finite small⟩
  · have texts : literal t n ≠ literal s m := fun same => equal (eq_of_literal same).symm
    simp only [ToldApart, equal, iff_false, false_implies, true_and, ne_eq, not_false_eq_true,
      forall_const, texts, false_or]
    have large : ∀ {a b : Int}, a ≠ b → SameFloat a b → ¬a.natAbs < 10 ^ 9 := by
      rintro a b different ⟨k, valueA, valueB⟩ small
      exact different (Double.eq_of_ofRat_int (small.trans (by norm_num))
        (valueA.trans valueB.symm))
    constructor
    · rintro told ⟨rfl, rfl, same⟩
      exact told ⟨.inl rfl, .inl rfl, same⟩
    · rintro told ⟨readable, readable', same⟩
      have back : SameFloat n m := same.imp (fun k both => ⟨both.2, both.1⟩)
      exact told ⟨readable.resolve_right (large equal same),
        readable'.resolve_right (large (Ne.symm equal) back), same⟩

end Grading

section Runs

def between : Marker Char := ⟨')', "-(".toList, by decide⟩

/-- `simplify((x)-(y)) == 0` for integers `x` and `y`; everything else raises. -/
def readDifference (text : Text) : Option Bool :=
  match splitOn between.word (text.drop 1).dropLast with
  | [x, y] =>
    match int? x, int? y with
    | some a, some b => some (a == b)
    | _, _ => none
  | _ => none

def integerTools : Tools := ⟨int?, fun text => some text, readDifference⟩

theorem readDifference_differenceText {x y : Text} (plainX : Plain x) (plainY : Plain y) :
    readDifference (differenceText x y) =
      match int? x, int? y with
      | some a, some b => some (a == b)
      | _, _ => none := by
  have fresh : ∀ piece ∈ [x, y], ¬between.word <:+: piece := by
    intro piece member occurs
    have there : ')' ∈ piece := occurs.subset List.mem_cons_self
    rcases List.mem_pair.mp member with rfl | rfl
    · exact plainX.notMem (by decide) there
    · exact plainY.notMem (by decide) there
  have cut := splitOn_intercalate (List.cons_ne_nil x [y]) fresh
  rw [List.intercalate_cons_cons, List.intercalate_singleton] at cut
  have inner : ((differenceText x y).drop 1).dropLast = x ++ between.word ++ y := by
    have shape : (differenceText x y).drop 1 = x ++ between.word ++ y ++ [')'] := by
      simp [differenceText, between, Marker.word]
    rw [shape, List.dropLast_concat]
  rw [readDifference, inner, cut]

theorem integerTools_reads : SympyReads integerTools where
  integers := by
    intro a b zero
    have value : readDifference (differenceText (ofInt a) (ofInt b)) = some true := zero
    rw [readDifference_differenceText (plain_ofInt a) (plain_ofInt b), int?_ofInt,
      int?_ofInt] at value
    simpa using value
  tuples := by
    intro x y plainX plainY comma zero
    have value : readDifference (differenceText x y) = some true := zero
    rw [readDifference_differenceText plainX plainY] at value
    rcases comma with inX | inY
    · rw [int?_comma plainX inX] at value
      cases value
    · rw [int?_comma plainY inY] at value
      cases readX : int? x <;> rw [readX] at value <;> cases value

theorem grade_answer_tells_seven_from_eight :
    SympyReads integerTools ∧
      ((gradeAnswer integerTools (some (literal false 7)) (some (literal false 8)) = .ok true ↔
        (7 : Int) = 8) ↔ ToldApart false false 7 8) :=
  ⟨integerTools_reads,
    grade_answer_decimal_literals_iff integerTools integerTools_reads false false 7 8⟩

theorem grade_answer_confuses_integers :
    gradeAnswer integerTools (some (literal false 9007199254740993))
      (some (literal false 9007199254740992)) = .ok true ∧
      gradeAnswer integerTools (some (literal true 1234567890)) (some (literal false 1234567890)) =
        .ok false := by
  constructor <;> decide +kernel

end Runs

end Verl.GradeAnswer
