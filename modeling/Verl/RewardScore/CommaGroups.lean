import Verl.Base.Numerals
import Verl.Base.Substitute

/-! `_strip_properly_formatted_commas` of `verl/utils/reward_score/prime_math/__init__.py` on all
texts, and on numbers with a comma between each three digits. -/
namespace Verl.GradeAnswer
open Text

structure DigitClass where
  isDigit : Char → Bool
  ascii : ∀ c : Char, c.toNat < 128 → isDigit c = c.isDigit

theorem DigitClass.comma (w : DigitClass) : w.isDigit ',' = false :=
  (w.ascii ',' (by decide)).trans (by decide)

def asciiDigit : DigitClass := ⟨Char.isDigit, fun _ _ => rfl⟩

/-- `(\d)(,)(\d\d\d)($|\D)`, with the comma left out. A last line break, which `$` leaves behind,
is put back as it was. -/
def commaRuleOf (w : DigitClass) : Rule Char
  | d :: ',' :: a :: b :: c :: rest =>
    if [d, a, b, c].all w.isDigit then
      match rest with
      | [] => some ([d, a, b, c], [])
      | x :: rest => if w.isDigit x then none else some ([d, a, b, c, x], rest)
    else none
  | _ => none

def stripProperlyFormattedCommasOf (w : DigitClass) (expr : Text) : Text :=
  subAll (commaRuleOf w) expr

section Groups

def commas : Text → Text
  | a :: b :: c :: d :: rest => a :: b :: c :: ',' :: commas (d :: rest)
  | digits => digits

def grouped (digits : Text) : Text := (commas digits.reverse).reverse

theorem grouped_short {digits : Text} (short : digits.length ≤ 3) : grouped digits = digits := by
  have same : commas digits.reverse = digits.reverse := by
    rw [commas.eq_def]
    split
    · rename_i a b c d rest back
      have := congrArg List.length back
      simp at this
      omega
    · rfl
  rw [grouped, same, List.reverse_reverse]

theorem grouped_append {front group : Text} (some : front ≠ []) (three : group.length = 3) :
    grouped (front ++ group) = grouped front ++ ',' :: group := by
  obtain ⟨x, y, z, rfl⟩ := List.length_eq_three.mp three
  obtain ⟨d, rest, back⟩ := List.exists_cons_of_ne_nil (List.reverse_ne_nil_iff.mpr some)
  simp [grouped, back, commas]

def joinGroups (first : Text) (groups : List Text) : Text :=
  first ++ (groups.map (fun group => ',' :: group)).flatten

theorem exists_groups {digits : Text} (some : digits ≠ []) :
    ∃ first groups, digits = first ++ groups.flatten ∧ grouped digits = joinGroups first groups ∧
      first ≠ [] ∧ first.length ≤ 3 ∧ ∀ group ∈ groups, group.length = 3 := by
  induction h : digits.length using Nat.strongRecOn generalizing digits with
  | ind len ih =>
    subst h
    rcases Nat.lt_or_ge 3 digits.length with long | short
    · let front := digits.take (digits.length - 3)
      let group := digits.drop (digits.length - 3)
      have same : digits = front ++ group := (List.take_append_drop _ _).symm
      have three : group.length = 3 := by
        simp only [group, List.length_drop]
        omega
      have nonempty : front ≠ [] := by
        intro empty
        have lengths := congrArg List.length same
        simp [empty, three] at lengths
        omega
      obtain ⟨first, groups, cut, joined, started, small, threes⟩ := ih front.length
        (by simp only [front, List.length_take]; omega) nonempty rfl
      refine ⟨first, groups ++ [group], ?_, ?_, started, small, ?_⟩
      · rw [List.flatten_append, ← List.append_assoc, ← cut]
        simpa using same
      · rw [same, grouped_append nonempty three, joined]
        simp [joinGroups]
      · intro other member
        rcases List.mem_append.mp member with inside | last
        · exact threes other inside
        · rw [List.mem_singleton.mp last]
          exact three
    · exact ⟨digits, [], by simp, by simp [grouped_short short, joinGroups], some, short, by simp⟩

end Groups

variable {w : DigitClass}

section Commas

theorem commaRule_some {s new rest : Text} (found : commaRuleOf w s = some (new, rest)) :
    ∃ d a b c behind, s = d :: ',' :: a :: b :: c :: behind ∧ new.head? = some d ∧
      [d, a, b, c].all w.isDigit = true ∧
      (∀ x, behind.head? = some x → w.isDigit x = false) ∧
        new.length + rest.length + 1 = s.length := by
  rw [commaRuleOf.eq_def] at found
  split at found
  · rename_i d a b c behind
    split at found
    · rename_i digits
      refine ⟨d, a, b, c, behind, rfl, ?_⟩
      split at found
      · cases found
        exact ⟨rfl, digits, by simp, by simp⟩
      · rename_i x tail
        split at found
        · cases found
        · rename_i other
          cases found
          refine ⟨rfl, digits, ?_, by simp; omega⟩
          intro y head
          cases head
          exact Bool.eq_false_iff.mpr other
    · cases found
  · cases found

theorem commaRule_shortens : Shortens (commaRuleOf w) := by
  intro s new rest found
  obtain ⟨-, -, -, -, -, -, -, -, -, lengths⟩ := commaRule_some found
  omega

theorem commaRule_none {c d : Char} {s : Text} (other : d ≠ ',') :
    commaRuleOf w (c :: d :: s) = none := by
  cases found : commaRuleOf w (c :: d :: s) with
  | none => rfl
  | some cut =>
    obtain ⟨_, _, _, _, _, same, -⟩ := commaRule_some found
    simp only [List.cons.injEq] at same
    exact absurd same.2.1 other

theorem commaRule_letter {c : Char} {s : Text} (letter : w.isDigit c = false) :
    commaRuleOf w (c :: s) = none := by
  cases found : commaRuleOf w (c :: s) with
  | none => rfl
  | some cut =>
    obtain ⟨d, _, _, _, _, same, -, digits, -⟩ := commaRule_some found
    rw [(List.cons.inj same).1, List.all_eq_true.mp digits d List.mem_cons_self] at letter
    cases letter

theorem sub_commaRule_plain {s : Text} (none : ',' ∉ s) : sub (commaRuleOf w) s = s := by
  refine sub_of_nowhere (fun b inside => ?_)
  cases found : commaRuleOf w b with
  | none => rfl
  | some cut =>
    obtain ⟨d, x, y, z, behind, rfl, -⟩ := commaRule_some found
    exact absurd (inside.subset (by simp)) none

/-- The search passes over what has no comma, up to the character before the next comma. -/
theorem sub_commaRule_skip {x : Text} (none : ',' ∉ x) (d : Char) (rest : Text) (other : d ≠ ',') :
    sub (commaRuleOf w) (x ++ d :: rest) = x ++ sub (commaRuleOf w) (d :: rest) := by
  induction x with
  | nil => rfl
  | cons c x ih =>
    have step : commaRuleOf w (c :: (x ++ d :: rest)) = Option.none := by
      cases x with
      | nil => exact commaRule_none other
      | cons e x => exact commaRule_none (fun same => none (by simp [same]))
    rw [List.cons_append, sub_skip commaRule_shortens step,
      ih (fun there => none (List.mem_cons_of_mem c there)), List.cons_append]

variable {v more : Text} {d a b c : Char}

theorem comma_ne {x : Char} (digit : w.isDigit x = true) : x ≠ ',' := by
  rintro rfl
  rw [w.comma] at digit
  cases digit

theorem sub_commaRule_last (none : ',' ∉ v) (digits : [d, a, b, c].all w.isDigit = true) :
    sub (commaRuleOf w) (v ++ d :: ',' :: [a, b, c]) = v ++ [d, a, b, c] := by
  have digit : w.isDigit d = true := List.all_eq_true.mp digits d List.mem_cons_self
  have found : commaRuleOf w (d :: ',' :: [a, b, c]) = some ([d, a, b, c], []) := by
    simp only [commaRuleOf, digits, if_true]
  rw [sub_commaRule_skip none d _ (comma_ne digit), sub_match commaRule_shortens found, sub_nil rfl,
    List.append_nil]

theorem sub_commaRule_more (none : ',' ∉ v) (digits : [d, a, b, c].all w.isDigit = true) :
    sub (commaRuleOf w) (v ++ d :: ',' :: a :: b :: c :: ',' :: more) =
      v ++ [d, a, b, c, ','] ++ sub (commaRuleOf w) more := by
  have digit : w.isDigit d = true := List.all_eq_true.mp digits d List.mem_cons_self
  have found : commaRuleOf w (d :: ',' :: a :: b :: c :: ',' :: more) =
      some ([d, a, b, c, ','], more) := by
    simp only [commaRuleOf, digits, w.comma, Bool.false_eq_true, if_true, if_false]
  rw [sub_commaRule_skip none d _ (comma_ne digit), sub_match commaRule_shortens found,
    List.append_assoc]

theorem stripCommas_plain (none : ',' ∉ v) : stripProperlyFormattedCommasOf w v = v :=
  subUntil_of_fixed (sub_commaRule_plain none) _

theorem stripCommas_one (none : ',' ∉ v) (digits : [d, a, b, c].all w.isDigit = true) :
    stripProperlyFormattedCommasOf w (v ++ d :: ',' :: [a, b, c]) = v ++ [d, a, b, c] := by
  have once := sub_commaRule_last none digits
  have clean : ',' ∉ v ++ [d, a, b, c] := by
    intro member
    rcases List.mem_append.mp member with inside | inside
    · exact none inside
    · exact comma_ne (List.all_eq_true.mp digits _ inside) rfl
  have changed : v ++ [d, a, b, c] ≠ v ++ d :: ',' :: [a, b, c] := by
    intro same
    exact clean (same ▸ by simp)
  rw [stripProperlyFormattedCommasOf, subAll, subUntil_succ once _ changed,
    subUntil_of_fixed (sub_commaRule_plain clean)]

theorem stripCommas_two {e f g : Char} (none : ',' ∉ v) (digits : [d, a, b, c].all w.isDigit = true)
    (more : [e, f, g].all w.isDigit = true) :
    stripProperlyFormattedCommasOf w (v ++ d :: ',' :: a :: b :: c :: ',' :: [e, f, g]) =
      v ++ [d, a, b, c, e, f, g] := by
  have plain : ',' ∉ [e, f, g] := fun inside => comma_ne (List.all_eq_true.mp more _ inside) rfl
  have once := @sub_commaRule_more w v [e, f, g] d a b c none digits
  rw [sub_commaRule_plain plain] at once
  have shape : v ++ [d, a, b, c, ','] ++ [e, f, g] = v ++ [d, a, b] ++ c :: ',' :: [e, f, g] := by
    simp
  rw [shape] at once
  have changed : v ++ [d, a, b] ++ c :: ',' :: [e, f, g] ≠
      v ++ d :: ',' :: a :: b :: c :: ',' :: [e, f, g] := by
    intro same
    have lengths := congrArg List.length same
    simp at lengths
  have clean : ',' ∉ v ++ [d, a, b] := by
    intro member
    rcases List.mem_append.mp member with inside | inside
    · exact none inside
    · exact comma_ne (List.all_eq_true.mp digits _ (by simp at inside ⊢; tauto)) rfl
  have later : [c, e, f, g].all w.isDigit = true := by
    simp only [List.all_cons, List.all_nil, Bool.and_true, Bool.and_eq_true] at digits more ⊢
    exact ⟨digits.2.2.2, more⟩
  have twice := sub_commaRule_last clean later
  have done : ',' ∉ v ++ [d, a, b] ++ [c, e, f, g] := by
    intro member
    rcases List.mem_append.mp member with inside | inside
    · exact clean inside
    · exact comma_ne (List.all_eq_true.mp later _ inside) rfl
  have changedAgain : v ++ [d, a, b] ++ [c, e, f, g] ≠ v ++ [d, a, b] ++ c :: ',' :: [e, f, g] := by
    intro same
    exact done (same ▸ by simp)
  have fuel : (v ++ d :: ',' :: a :: b :: c :: ',' :: [e, f, g]).length = v.length + 8 + 1 := by
    simp
  rw [stripProperlyFormattedCommasOf, subAll, subUntil_succ once _ changed, fuel,
    subUntil_succ twice _ changedAgain, subUntil_of_fixed (sub_commaRule_plain done)]
  simp

/-- A first comma with four digits behind it, which no round takes out. -/
def Stuck (w : DigitClass) (s : Text) : Prop :=
  ∃ x a b c e y, s = x ++ ',' :: a :: b :: c :: e :: y ∧ ',' ∉ x ∧ [a, b, c, e].all w.isDigit = true

theorem Stuck.comma_mem {s : Text} (stuck : Stuck w s) : ',' ∈ s := by
  obtain ⟨x, a, b, c, e, y, rfl, -, -⟩ := stuck
  simp

theorem sub_commaRule_head (d : Char) (rest : Text) :
    ∃ tail, sub (commaRuleOf w) (d :: rest) = d :: tail := by
  cases found : commaRuleOf w (d :: rest) with
  | none => exact ⟨_, sub_skip commaRule_shortens found⟩
  | some cut =>
    obtain ⟨new, behind⟩ := cut
    obtain ⟨d', _, _, _, _, same, head, -⟩ := commaRule_some found
    obtain ⟨tail, rfl⟩ := List.head?_eq_some_iff.mp head
    rw [sub_match commaRule_shortens found, ← (List.cons.inj same).1]
    exact ⟨_, rfl⟩

theorem Stuck.sub {s : Text} (stuck : Stuck w s) : Stuck w (sub (commaRuleOf w) s) := by
  obtain ⟨x, a, b, c, e, y, rfl, none, digits⟩ := stuck
  have digit : ∀ z ∈ [a, b, c, e], w.isDigit z = true := List.all_eq_true.mp digits
  have front : ',' ∉ [a, b, c] := fun inside => comma_ne (digit _ (by simp at inside ⊢; tauto)) rfl
  obtain ⟨tail, behind⟩ := sub_commaRule_head e y
  have after : Verl.sub (commaRuleOf w) (',' :: a :: b :: c :: e :: y) =
      ',' :: a :: b :: c :: e :: tail := by
    have skip := @sub_commaRule_skip w _ front e y (comma_ne (digit e (by simp)))
    rw [behind] at skip
    rw [sub_skip commaRule_shortens (commaRule_letter w.comma)]
    exact congrArg (List.cons ',') skip
  refine ⟨x, a, b, c, e, tail, ?_, none, digits⟩
  rcases List.eq_nil_or_concat x with rfl | ⟨v, d, rfl⟩
  · exact after
  · have other : d ≠ ',' := fun same => none (by simp [same])
    have here : commaRuleOf w (d :: ',' :: a :: b :: c :: e :: y) = Option.none := by
      cases found : commaRuleOf w (d :: ',' :: a :: b :: c :: e :: y) with
      | none => rfl
      | some cut =>
        obtain ⟨_, _, _, _, rest, same, -, -, ends, -⟩ := commaRule_some found
        simp only [List.cons.injEq] at same
        have letter := ends e (by simp [← same.2.2.2.2.2])
        rw [digit e (by simp)] at letter
        cases letter
    have clean : ',' ∉ v := fun there => none (by simp [there])
    have skip := @sub_commaRule_skip w _ clean d (',' :: a :: b :: c :: e :: y) other
    rw [sub_skip commaRule_shortens here, after] at skip
    simpa using skip

theorem stripCommas_stuck {e f g i j k : Char} (none : ',' ∉ v)
    (digits : [d, a, b, c].all w.isDigit = true) (second : [e, f, g].all w.isDigit = true)
    (third : [i, j, k].all w.isDigit = true) (ends : more = [] ∨ ∃ tail, more = ',' :: tail) :
    ',' ∈ stripProperlyFormattedCommasOf w
      (v ++ d :: ',' :: a :: b :: c :: ',' :: e :: f :: g :: ',' :: i :: j :: k :: more) := by
  let s := v ++ d :: ',' :: a :: b :: c :: ',' :: e :: f :: g :: ',' :: i :: j :: k :: more
  have once : sub (commaRuleOf w) s =
    v ++ [d, a, b, c, ','] ++ sub (commaRuleOf w) ([e, f] ++ g :: ',' :: i :: j :: k :: more) :=
    sub_commaRule_more none digits
  have front : ',' ∉ [e, f] :=
    fun inside => comma_ne (List.all_eq_true.mp second _ (by simp at inside ⊢; tauto)) rfl
  have group : [g, i, j, k].all w.isDigit = true := by
    simp only [List.all_cons, List.all_nil, Bool.and_true, Bool.and_eq_true] at second third ⊢
    exact ⟨second.2.2, third⟩
  have behind : ∃ tail,
      sub (commaRuleOf w) ([e, f] ++ g :: ',' :: i :: j :: k :: more) =
      e :: f :: g :: i :: tail := by
    rcases ends with rfl | ⟨tail, rfl⟩
    · exact ⟨[j, k], sub_commaRule_last front group⟩
    · exact ⟨_, sub_commaRule_more front group⟩
  have stuck : Stuck w (sub (commaRuleOf w) s) := by
    obtain ⟨tail, behind⟩ := behind
    refine ⟨v ++ [d, a, b, c], e, f, g, i, tail, ?_, ?_, ?_⟩
    · rw [once, behind]
      simp
    · intro member
      rcases List.mem_append.mp member with inside | inside
      · exact none inside
      · exact comma_ne (List.all_eq_true.mp digits _ inside) rfl
    · simp only [List.all_cons, List.all_nil, Bool.and_true, Bool.and_eq_true] at second third ⊢
      exact ⟨second.1, second.2.1, second.2.2, third.1⟩
  have result : Stuck w (subUntil (commaRuleOf w) s.length (sub (commaRuleOf w) s)) :=
    subUntil_induction (fun _ here => Stuck.sub here) stuck _
  by_cases fixed : sub (commaRuleOf w) s = s
  · have same : stripProperlyFormattedCommasOf w s = s := subUntil_of_fixed fixed _
    change ',' ∈ stripProperlyFormattedCommasOf w s
    rw [same, ← fixed]
    exact stuck.comma_mem
  · have same : stripProperlyFormattedCommasOf w s =
      subUntil (commaRuleOf w) s.length (sub (commaRuleOf w) s) :=
      subUntil_succ rfl _ fixed
    change ',' ∈ stripProperlyFormattedCommasOf w s
    rw [same]
    exact result.comma_mem

end Commas

section Separated

variable {sign first : Text} {groups : List Text}

theorem stripCommas_groups (clean : ',' ∉ sign) (started : first ≠ [])
    (threes : ∀ group ∈ groups, group.length = 3)
    (digits : ∀ c ∈ first ++ groups.flatten, w.isDigit c = true) :
    if groups.length ≤ 2 then
      stripProperlyFormattedCommasOf w (sign ++ joinGroups first groups) =
      sign ++ (first ++ groups.flatten)
    else ',' ∈ stripProperlyFormattedCommasOf w (sign ++ joinGroups first groups) := by
  obtain ⟨v, d, rfl⟩ := (List.eq_nil_or_concat first).resolve_left started
  have before : ',' ∉ sign ++ v := by
    intro member
    rcases List.mem_append.mp member with inSign | inV
    · exact clean inSign
    · exact comma_ne (digits ',' (by simp [inV])) rfl
  have each : ∀ group ∈ groups, group.all w.isDigit = true := fun group there =>
    List.all_eq_true.mpr (fun c inside =>
      digits c (List.mem_append_right _ (List.mem_flatten.mpr ⟨group, there, inside⟩)))
  have behind : ∀ {group}, group ∈ groups → (d :: group).all w.isDigit = true := by
    intro group there
    rw [List.all_cons, digits d (by simp), each group there, Bool.and_self]
  match groups with
  | [] =>
    have none : ',' ∉ sign ++ joinGroups (v.concat d) [] := by
      intro member
      simp only [joinGroups, List.map_nil, List.flatten_nil, List.append_nil,
        List.mem_append] at member
      rcases member with inSign | inFirst
      · exact clean inSign
      · exact comma_ne (digits ',' (by simpa using inFirst)) rfl
    rw [if_pos (by simp), stripCommas_plain none]
    simp [joinGroups]
  | [first] =>
    obtain ⟨a, b, c, rfl⟩ := List.length_eq_three.mp (threes first (by simp))
    have one : [d, a, b, c].all w.isDigit = true := behind (by simp)
    have result := stripCommas_one before one
    simpa [joinGroups] using result
  | [first, second] =>
    obtain ⟨a, b, c, rfl⟩ := List.length_eq_three.mp (threes first (by simp))
    obtain ⟨e, f, g, rfl⟩ := List.length_eq_three.mp (threes second (by simp))
    have one : [d, a, b, c].all w.isDigit = true := behind (by simp)
    have two : [e, f, g].all w.isDigit = true := each _ (by simp)
    have result := stripCommas_two before one two
    simpa [joinGroups] using result
  | first :: second :: third :: rest =>
    obtain ⟨a, b, c, rfl⟩ := List.length_eq_three.mp (threes first (by simp))
    obtain ⟨e, f, g, rfl⟩ := List.length_eq_three.mp (threes second (by simp))
    obtain ⟨i, j, k, rfl⟩ := List.length_eq_three.mp (threes third (by simp))
    have one : [d, a, b, c].all w.isDigit = true := behind (by simp)
    have two : [e, f, g].all w.isDigit = true := each _ (by simp)
    have three : [i, j, k].all w.isDigit = true := each _ (by simp)
    have ends : (rest.map (fun group => ',' :: group)).flatten = [] ∨
        ∃ tail, (rest.map (fun group => ',' :: group)).flatten = ',' :: tail := by
      cases rest with
      | nil => exact .inl rfl
      | cons group rest => exact .inr ⟨_, rfl⟩
    have result := stripCommas_stuck before one two three ends
    rw [if_neg (by simp)]
    simpa [joinGroups] using result

theorem digit_ofNat (w : DigitClass) (n : Nat) : ∀ c ∈ ofNat n, w.isDigit c = true := by
  intro c member
  have digit := digits_ofNat n c member
  have small : c.toNat < 128 := by
    simp only [Char.isDigit, Bool.and_eq_true, decide_eq_true_eq] at digit
    exact Nat.lt_of_le_of_lt (UInt32.le_iff_toNat_le.mp digit.2) (by decide)
  rw [w.ascii c small, digit]

theorem stripCommas_grouped (w : DigitClass) (clean : ',' ∉ sign) (n : Nat) :
    if n < 10 ^ 9 then
      stripProperlyFormattedCommasOf w (sign ++ grouped (ofNat n)) = sign ++ ofNat n
    else ',' ∈ stripProperlyFormattedCommasOf w (sign ++ grouped (ofNat n)) := by
  obtain ⟨first, groups, cut, joined, started, small, threes⟩ := exists_groups (ofNat_ne_nil n)
  have digits := digit_ofNat w n
  rw [cut] at digits
  have result := stripCommas_groups clean started threes digits
  have size : (ofNat n).length ≤ 9 ↔ n < 10 ^ 9 :=
    Nat.length_toDigits_le_iff (by decide) (by decide)
  have lengths : (ofNat n).length = first.length + 3 * groups.length := by
    rw [cut, List.length_append, List.length_flatten, List.map_congr_left threes, List.map_const',
      List.sum_replicate]
    simp [Nat.mul_comm]
  have begun := List.length_pos_iff.mpr started
  rw [joined, cut]
  by_cases few : groups.length ≤ 2
  · rw [if_pos few] at result
    rwa [if_pos (size.mp (by omega))]
  · rw [if_neg few] at result
    rwa [if_neg (fun less => few (by have := size.mpr less; omega))]

def HasSeparator (w : DigitClass) (s : Text) : Prop :=
  ∃ before d a b c behind, s = before ++ d :: ',' :: a :: b :: c :: behind ∧
    [d, a, b, c].all w.isDigit = true ∧ ∀ x, behind.head? = some x → w.isDigit x = false

theorem commaRule_separator {w : DigitClass} {d a b c : Char} {behind : Text}
    (digits : [d, a, b, c].all w.isDigit = true)
    (ends : ∀ x, behind.head? = some x → w.isDigit x = false) :
    commaRuleOf w (d :: ',' :: a :: b :: c :: behind) ≠ none := by
  cases behind with
  | nil => simp [commaRuleOf, digits]
  | cons x behind => simp [commaRuleOf, digits, ends x rfl]

/-- What the first round leaves as it is has no separator, and conversely. -/
theorem sub_commaRule_eq_self_iff {w : DigitClass} {s : Text} :
    sub (commaRuleOf w) s = s ↔ ¬HasSeparator w s := by
  rw [sub_eq_self_iff commaRule_shortens]
  constructor
  · rintro nowhere ⟨before, d, a, b, c, behind, rfl, digits, ends⟩
    exact commaRule_separator digits ends (nowhere _ (List.suffix_append before _))
  · intro none b inside
    cases found : commaRuleOf w b with
    | none => rfl
    | some cut =>
      obtain ⟨before, rfl⟩ := inside
      obtain ⟨d, x, y, z, behind, rfl, -, digits, ends, -⟩ := commaRule_some found
      exact absurd ⟨before, d, x, y, z, behind, rfl, digits, ends⟩ none

end Separated

/-- For every reading of `\d` the loop ends on every text; the digits of a number come back without
their separators exactly when there are at most nine of them; and a text is left as it is exactly
when no comma stands between a digit and exactly three digits. -/
theorem stripProperlyFormattedCommas_spec (w : DigitClass) :
    (∀ s, Loops (commaRuleOf w) s (stripProperlyFormattedCommasOf w s)) ∧
      (∀ n : Nat, stripProperlyFormattedCommasOf w (grouped (ofNat n)) = ofNat n ↔ n < 10 ^ 9) ∧
      ∀ s, stripProperlyFormattedCommasOf w s = s ↔ ¬HasSeparator w s := by
  refine ⟨loops_subAll commaRule_shortens, fun n => ?_, fun s => ?_⟩
  · have result := @stripCommas_grouped [] w List.not_mem_nil n
    by_cases small : n < 10 ^ 9
    · rw [if_pos small] at result
      exact iff_of_true result small
    · rw [if_neg small] at result
      refine iff_of_false (fun plain => ?_) small
      rw [List.nil_append, plain] at result
      exact comma_ne (digit_ofNat w n ',' result) rfl
  · exact (subAll_eq_self_iff commaRule_shortens).trans sub_commaRule_eq_self_iff

/-- The first round takes out the first and the third comma, and no later one the second. -/
theorem stripCommas_ten_digits : grouped (ofNat 1234567890) = "1,234,567,890".toList ∧
    stripProperlyFormattedCommasOf asciiDigit (grouped (ofNat 1234567890)) = "1234,567890".toList ∧
    stripProperlyFormattedCommasOf asciiDigit (grouped (ofNat 1234567890)) ≠ ofNat 1234567890 := by
  decide +kernel

end Verl.GradeAnswer
