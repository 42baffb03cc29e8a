import Verl.RewardScore.StripString

/-! Which texts `strip_string` of `verl/utils/reward_score/math.py` leaves as they are. Every pass
either keeps a text without blanks or makes it lighter, so the passes fix a text together exactly
when each of them does. -/
namespace Verl.StripString
open Text

section Model

def isEquiv (int : Text → Option Int) : Option Text → Option Text → Bool
  | none, none => true
  | some str1, some str2 =>
    match stripString int str1, stripString int str2 with
    | .ok ss1, .ok ss2 => ss1 == ss2
    | _, _ => str1 == str2
  | _, _ => false

end Model

section Passes

/-- Zeros and braces are what the passes put in; a half, a slash and an equation are paid for by
their `5`, `/` and `=`. -/
def cost (c : Char) : Int :=
  if c = '0' ∨ c = '\x7b' ∨ c = '\x7d' then -1 else if c = '=' then 4
    else if c = '/' ∨ c = '5' then 100 else 1

def added : Text := "\\sqrtfac\x7b\x7d012.".toList

structure Pass (f : Text → Py Text) : Prop where
  within : ∀ {u v : Text}, f u = .ok v → ∀ c ∈ v, c ∈ u ∨ c ∈ added
  lighter : ∀ {u v : Text}, ' ' ∉ u → f u = .ok v → v = u ∨ weight cost v < weight cost u

variable {f g : Text → Py Text} {t u v : Text}

theorem Pass.notMem (pass : Pass f) {c : Char} (foreign : c ∉ added) (absent : c ∉ u)
    (result : f u = .ok v) : c ∉ v :=
  fun member => (pass.within result c member).elim absent foreign

theorem space_notMem_added : ' ' ∉ added := by decide

theorem Pass.bind (first : Pass f) (second : Pass g) : Pass (fun u => f u >>= g) where
  within := by
    intro u w result c member
    obtain ⟨v, middle, last⟩ := bind_ok_iff.mp result
    rcases second.within last c member with before | new
    · exact first.within middle c before
    · exact .inr new
  lighter := by
    intro u w noSpace result
    obtain ⟨v, middle, last⟩ := bind_ok_iff.mp result
    have noSpaceV := first.notMem space_notMem_added noSpace middle
    rcases first.lighter noSpace middle with rfl | less
    · exact second.lighter noSpaceV last
    · rcases second.lighter noSpaceV last with rfl | lesser
      · exact .inr less
      · exact .inr (lesser.trans less)

theorem Pass.bind_fixed_iff (first : Pass f) (second : Pass g) (noSpace : ' ' ∉ t) :
    (f t >>= g) = .ok t ↔ f t = .ok t ∧ g t = .ok t := by
  constructor
  · intro result
    obtain ⟨v, middle, last⟩ := bind_ok_iff.mp result
    rcases first.lighter noSpace middle with rfl | less
    · exact ⟨middle, last⟩
    · rcases second.lighter (first.notMem space_notMem_added noSpace middle) last with rfl | back
      · exact absurd less (lt_irrefl _)
      · exact absurd (less.trans back) (lt_irrefl _)
  · rintro ⟨middle, last⟩
    rw [middle]
    exact last

def Lightens (pair : Text × Text) : Prop :=
  weight cost pair.2 < weight cost pair.1 ∧ ∀ c ∈ pair.2, c ∈ pair.1 ∨ c ∈ added

instance (pair : Text × Text) : Decidable (Lightens pair) :=
  @instDecidableAnd _ _ inferInstance (List.decidableBAll _ _)

theorem replace_pass {pair : Text × Text} (lightens : Lightens pair) :
    Pass (fun u => .ok (replace pair.1 pair.2 u)) where
  within := by
    intro u v result c member
    cases result
    by_cases occurs : pair.1 <:+: u
    · rcases mem_replace member with new | old
      · rcases lightens.2 c new with inside | there
        · exact .inl (occurs.subset inside)
        · exact .inr there
      · exact .inl old
    · rw [replace_of_absent occurs] at member
      exact .inl member
  lighter := by
    intro u v _ result
    cases result
    by_cases occurs : pair.1 <:+: u
    · exact .inr (weight_replace_lt cost lightens.1 occurs)
    · exact .inl (replace_of_absent occurs _)

theorem id_pass : Pass (fun u => .ok u) where
  within := by
    intro u v result c member
    cases result
    exact .inl member
  lighter := by
    intro u v _ result
    cases result
    exact .inl rfl

theorem replaceAll_cons (pair : Text × Text) (pairs : List (Text × Text)) (u : Text) :
    replaceAll (pair :: pairs) u = replaceAll pairs (replace pair.1 pair.2 u) := rfl

theorem replaceAll_pass {pairs : List (Text × Text)} (lighten : ∀ pair ∈ pairs, Lightens pair) :
    Pass (fun u => .ok (replaceAll pairs u)) := by
  induction pairs with
  | nil => exact id_pass
  | cons pair pairs ih =>
    exact (replace_pass (lighten pair List.mem_cons_self)).bind
      (ih (fun other there => lighten other (List.mem_cons_of_mem pair there)))

theorem replaceAll_fixed_iff {pairs : List (Text × Text)} (lighten : ∀ pair ∈ pairs, Lightens pair)
    (noSpace : ' ' ∉ t) :
    replaceAll pairs t = t ↔ ∀ pair ∈ pairs, ¬pair.1 <:+: t := by
  induction pairs with
  | nil => simp [replaceAll]
  | cons pair pairs ih =>
    have lightenTail : ∀ other ∈ pairs, Lightens other :=
      fun other there => lighten other (List.mem_cons_of_mem pair there)
    have both := (replace_pass (lighten pair List.mem_cons_self)).bind_fixed_iff
      (replaceAll_pass lightenTail) noSpace
    simp only [ok_bind, Except.ok.injEq] at both
    rw [List.forall_mem_cons, ← ih lightenTail, ← replace_eq_self_iff cost
      (lighten pair List.mem_cons_self).1, ← both]
    rfl

theorem markup_lightens : ∀ pair ∈ markup, Lightens pair := by decide

theorem percentsAndDots_lightens : ∀ pair ∈ percentsAndDots, Lightens pair := by decide

theorem removeRightUnits_of_noSpace (noSpace : ' ' ∉ u) : removeRightUnits u = .ok u := by
  have absent : ¬units.word <:+: u := fun occurs => noSpace (occurs.subset (by decide))
  rw [removeRightUnits, if_neg absent]

theorem removeRightUnits_pass : Pass removeRightUnits where
  within := by
    intro u v result c member
    left
    rw [removeRightUnits] at result
    split at result
    · obtain ⟨-, -, last⟩ := bind_ok_iff.mp result
      cases last
      rw [← intercalate_splitOn units.word u]
      exact mem_intercalate_of_mem (List.head_mem _) member
    · cases result
      exact member
  lighter := by
    intro u v noSpace result
    rw [removeRightUnits_of_noSpace noSpace] at result
    exact .inl (Except.ok.inj result).symm

end Passes

section Pieces

variable {word : Text} {fix : Text → Py (Option Text)} {u v first newStr : Text}
  {pieces fixed : List Text}

theorem rejoin_some (result : rejoin word fix pieces newStr = .ok (some v)) :
    ∃ fixed, List.Forall₂ (fun piece new => fix piece = .ok (some new)) pieces fixed ∧
      v = List.intercalate word (newStr :: fixed) := by
  induction pieces generalizing newStr with
  | nil =>
    cases result
    exact ⟨[], .nil, by rw [List.intercalate_singleton]⟩
  | cons piece pieces ih =>
    rw [rejoin] at result
    obtain ⟨step, fixes, later⟩ := bind_ok_iff.mp result
    cases step with
    | none => cases later
    | some new =>
      obtain ⟨fixed, related, rfl⟩ := ih later
      refine ⟨new :: fixed, .cons fixes related, ?_⟩
      cases fixed with
      | nil => simp
      | cons next fixed => simp

theorem rejoin_of_forall₂
    (related : List.Forall₂ (fun piece new => fix piece = .ok (some new)) pieces fixed)
    (newStr : Text) :
    rejoin word fix pieces newStr = .ok (some (List.intercalate word (newStr :: fixed))) := by
  induction related generalizing newStr with
  | nil => rw [rejoin, List.intercalate_singleton]
  | @cons piece new pieces fixed fixes related ih =>
    rw [rejoin, fixes]
    simp only [ok_bind]
    rw [ih]
    cases fixed with
    | nil => simp
    | cons next fixed => simp

theorem rejoin_none (result : rejoin word fix pieces newStr = .ok none) :
    ∃ piece ∈ pieces, fix piece = .ok none := by
  induction pieces generalizing newStr with
  | nil => cases result
  | cons piece pieces ih =>
    rw [rejoin] at result
    obtain ⟨step, fixes, later⟩ := bind_ok_iff.mp result
    cases step with
    | none => exact ⟨piece, List.mem_cons_self, fixes⟩
    | some new =>
      obtain ⟨other, there, stops⟩ := ih later
      exact ⟨other, List.mem_cons_of_mem piece there, stops⟩

theorem fixPieces_ok (result : fixPieces word fix u = .ok v) :
    ((∃ piece, fix piece = .ok none) ∧ v = u) ∨ ∃ first pieces fixed,
      splitOn word u = first :: pieces ∧
      List.Forall₂ (fun piece new => fix piece = .ok (some new)) pieces fixed ∧
        v = List.intercalate word (first :: fixed) := by
  obtain ⟨first, pieces, cut⟩ := List.exists_cons_of_ne_nil (splitOn_ne_nil word u)
  rw [fixPieces] at result
  simp only [cut, List.tail_cons, List.head_cons] at result
  obtain ⟨joined, rejoined, last⟩ := bind_ok_iff.mp result
  cases last
  cases joined with
  | none =>
    obtain ⟨piece, -, stops⟩ := rejoin_none rejoined
    exact .inl ⟨⟨piece, stops⟩, rfl⟩
  | some new =>
    obtain ⟨fixed, related, rfl⟩ := rejoin_some rejoined
    exact .inr ⟨first, pieces, fixed, cut, related, rfl⟩

theorem fixPieces_of_forall₂ (cut : splitOn word u = first :: pieces)
    (related : List.Forall₂ (fun piece new => fix piece = .ok (some new)) pieces fixed) :
    fixPieces word fix u = .ok (List.intercalate word (first :: fixed)) := by
  rw [fixPieces]
  simp only [cut, List.tail_cons, List.head_cons]
  rw [rejoin_of_forall₂ related]
  rfl

/-- What a piece may become: it stays, or gets lighter through characters of `added`. -/
def Polishes (fix : Text → Py (Option Text)) : Prop :=
  ∀ {piece new : Text}, fix piece = .ok (some new) →
    (∀ c ∈ new, c ∈ piece ∨ c ∈ added) ∧ (new = piece ∨ weight cost new < weight cost piece)

theorem intercalate_polished (polishes : Polishes fix)
    (related : List.Forall₂ (fun piece new => fix piece = .ok (some new)) pieces fixed)
    (first : Text) :
    fixed = pieces ∨
      weight cost (List.intercalate word (first :: fixed)) <
        weight cost (List.intercalate word (first :: pieces)) := by
  induction related generalizing first with
  | nil => exact .inl rfl
  | @cons piece new pieces fixed fixes related ih =>
    rw [intercalate_cons word first (List.cons_ne_nil new fixed),
      intercalate_cons word first (List.cons_ne_nil piece pieces)]
    simp only [weight_append]
    have head : new = piece ∨
        weight cost (List.intercalate word (new :: pieces)) <
        weight cost (List.intercalate word (piece :: pieces)) := by
      rcases (polishes fixes).2 with same | less
      · exact .inl same
      · right
        cases pieces with
        | nil => simpa using less
        | cons next pieces => simpa [List.intercalate_cons_cons] using less
    rcases ih new with rfl | less
    · rcases head with rfl | lighter
      · exact .inl rfl
      · right
        omega
    · right
      rcases head with rfl | lighter
      · omega
      · omega

theorem fixPieces_pass (known : ∀ c ∈ word, c ∈ added) (polishes : Polishes fix) :
    Pass (fixPieces word fix) where
  within := by
    intro u v result c member
    rcases fixPieces_ok result with ⟨-, rfl⟩ | ⟨first, pieces, fixed, cut, related, rfl⟩
    · exact .inl member
    · have old : ∀ piece ∈ first :: pieces, c ∈ piece → c ∈ u := by
        intro piece there inside
        rw [← intercalate_splitOn word u, cut]
        exact mem_intercalate_of_mem there inside
      rcases mem_intercalate member with inWord | ⟨new, there, inside⟩
      · exact .inr (known c inWord)
      · rcases List.mem_cons.mp there with rfl | later
        · exact .inl (old new List.mem_cons_self inside)
        · obtain ⟨piece, member, fixes⟩ := exists_left_of_forall₂ related later
          rcases (polishes fixes).1 c inside with before | fresh
          · exact .inl (old piece (List.mem_cons_of_mem first member) before)
          · exact .inr fresh
  lighter := by
    intro u v _ result
    rcases fixPieces_ok result with ⟨-, rfl⟩ | ⟨first, pieces, fixed, cut, related, rfl⟩
    · exact .inl rfl
    · have joined := intercalate_splitOn word u
      rw [cut] at joined
      rcases @intercalate_polished word _ _ _ polishes related first with rfl | less
      · exact .inl joined
      · rw [joined] at less
        exact .inr less

theorem fixPieces_fixed_iff (polishes : Polishes fix) (total : ∀ piece, fix piece ≠ .ok none)
    (cut : splitOn word u = first :: pieces) :
    fixPieces word fix u = .ok u ↔ ∀ piece ∈ pieces, fix piece = .ok (some piece) := by
  have joined := intercalate_splitOn word u
  rw [cut] at joined
  constructor
  · intro result
    rcases fixPieces_ok result with ⟨⟨piece, stops⟩, -⟩ | ⟨first', pieces', fixed, cut',
      related, same⟩
    · exact absurd stops (total piece)
    · obtain ⟨rfl, rfl⟩ := List.cons.inj (cut.symm.trans cut')
      rcases @intercalate_polished word _ _ _ polishes related first with rfl | less
      · exact List.forall₂_same.mp related
      · rw [joined, ← same] at less
        exact absurd less (lt_irrefl _)
  · intro each
    rw [fixPieces_of_forall₂ cut (List.forall₂_same.mpr each), joined]

theorem fracPiece_ok {piece new : Text} (fixes : fracPiece piece = .ok (some new)) :
    (new = piece ∧ ∃ rest, piece = '\x7b' :: rest) ∨
      (∃ a b post, piece = a :: b :: post ∧ new = ['\x7b', a, '\x7d', '\x7b', b, '\x7d'] ++ post) ∨
      ∃ a post, piece = a :: '\x7b' :: post ∧ new = ['\x7b', a, '\x7d', '\x7b'] ++ post := by
  cases piece with
  | nil => cases fixes
  | cons a rest =>
    simp only [fracPiece] at fixes
    split at fixes
    · rename_i brace
      subst brace
      cases fixes
      exact .inl ⟨rfl, rest, rfl⟩
    · split at fixes
      · cases fixes
      · rename_i b post
        split at fixes
        · cases fixes
          exact .inr (.inl ⟨a, b, post, rfl, rfl⟩)
        · rename_i brace
          obtain rfl : b = '\x7b' := by simpa using brace
          cases fixes
          exact .inr (.inr ⟨a, post, rfl, rfl⟩)

theorem fracPiece_polishes : Polishes fracPiece := by
  intro piece new fixes
  rcases fracPiece_ok fixes with ⟨rfl, -⟩ | ⟨a, b, post, rfl, rfl⟩ | ⟨a, post, rfl, rfl⟩
  · exact ⟨fun c member => .inl member, .inl rfl⟩
  · constructor
    · intro c member
      simp only [List.cons_append, List.nil_append, List.mem_cons] at member ⊢
      rcases member with rfl | rfl | rfl | rfl | rfl | rfl | there
      all_goals first | exact .inr (by decide) | simp [*]
    · right
      simp [cost]
      omega
  · constructor
    · intro c member
      simp only [List.cons_append, List.nil_append, List.mem_cons] at member ⊢
      rcases member with rfl | rfl | rfl | rfl | there
      all_goals first | exact .inr (by decide) | simp [*]
    · right
      simp [cost]
      omega

theorem sqrtPiece_ok {piece new : Text} (fixes : sqrtPiece piece = .ok (some new)) :
    (new = piece ∧ piece.head? = some '\x7b') ∨ ∃ a rest,
      piece = a :: rest ∧ new = ['\x7b', a, '\x7d'] ++ rest := by
  cases piece with
  | nil => cases fixes
  | cons a rest =>
    rw [sqrtPiece] at fixes
    split at fixes
    · cases fixes
      exact .inr ⟨a, rest, rfl, rfl⟩
    · rename_i brace
      cases fixes
      exact .inl ⟨rfl, by simpa using brace⟩

theorem sqrtPiece_total (piece : Text) : sqrtPiece piece ≠ .ok none := by
  intro stops
  cases piece with
  | nil => cases stops
  | cons a rest =>
    rw [sqrtPiece] at stops
    split at stops <;> cases stops

theorem sqrtPiece_polishes : Polishes sqrtPiece := by
  intro piece new fixes
  rcases sqrtPiece_ok fixes with ⟨rfl, -⟩ | ⟨a, rest, rfl, rfl⟩
  · exact ⟨fun c member => .inl member, .inl rfl⟩
  · constructor
    · intro c member
      simp only [List.cons_append, List.nil_append, List.mem_cons] at member ⊢
      rcases member with rfl | rfl | rfl | there
      all_goals first | exact .inr (by decide) | simp [*]
    · right
      simp [cost]
      omega

theorem sqrtPiece_fixed_iff (piece : Text) :
    sqrtPiece piece = .ok (some piece) ↔ piece.head? = some '\x7b' := by
  constructor
  · intro fixes
    rcases sqrtPiece_ok fixes with ⟨-, brace⟩ | ⟨a, rest, rfl, same⟩
    · exact brace
    · have lengths := congrArg List.length same
      simp at lengths
  · intro brace
    obtain ⟨rest, rfl⟩ := List.head?_eq_some_iff.mp brace
    rfl

theorem frac_added : ∀ c ∈ frac.word, c ∈ added := by
  have all : frac.word.all (fun c => added.contains c) = true := by decide
  exact fun c member => List.contains_iff_mem.mp (List.all_eq_true.mp all c member)

theorem sqrt_added : ∀ c ∈ sqrt.word, c ∈ added := by
  have all : sqrt.word.all (fun c => added.contains c) = true := by decide
  exact fun c member => List.contains_iff_mem.mp (List.all_eq_true.mp all c member)

theorem fixFracs_pass : Pass fixFracs := fixPieces_pass frac_added fracPiece_polishes

theorem fixSqrt_pass : Pass fixSqrt where
  within := by
    intro u v result
    rw [fixSqrt] at result
    split at result
    · exact (fixPieces_pass sqrt_added sqrtPiece_polishes).within result
    · exact id_pass.within result
  lighter := by
    intro u v noSpace result
    rw [fixSqrt] at result
    split at result
    · exact (fixPieces_pass sqrt_added sqrtPiece_polishes).lighter noSpace result
    · exact id_pass.lighter noSpace result

theorem fixSqrt_fixed_iff {t : Text} :
    fixSqrt t = .ok t ↔ ∀ piece ∈ (splitOn sqrt.word t).tail, piece.head? = some '\x7b' := by
  obtain ⟨first, pieces, cut⟩ := List.exists_cons_of_ne_nil (splitOn_ne_nil sqrt.word t)
  have each := fixPieces_fixed_iff sqrtPiece_polishes sqrtPiece_total cut
  simp only [sqrtPiece_fixed_iff] at each
  rw [cut, List.tail_cons, ← each, fixSqrt]
  by_cases occurs : sqrt.word <:+: t
  · rw [if_pos occurs]
  · have alone := splitOn_of_absent occurs
    have whole : fixPieces sqrt.word sqrtPiece t = .ok t := by
      rw [fixPieces_of_forall₂ alone .nil, List.intercalate_singleton]
    rw [if_neg occurs, whole]

end Pieces

section Steps

variable {t u v : Text}

theorem leadingZero_pass : Pass (fun u => .ok (leadingZero u)) where
  within := by
    intro u v result c member
    cases result
    rw [leadingZero] at member
    split at member
    · rcases List.mem_cons.mp member with rfl | there
      · exact .inr (by decide)
      · exact .inl there
    · exact .inl member
  lighter := by
    intro u v _ result
    cases result
    rw [leadingZero]
    split
    · right
      simp [cost]
    · exact .inl rfl

theorem leadingZero_fixed_iff : leadingZero t = t ↔ t.head? ≠ some '.' := by
  rw [leadingZero]
  split
  · simp [*]
  · simp [*]

/-- A left-hand side of at most two characters before the only equality sign. -/
def ShortLeft (t : Text) : Prop :=
  ∃ left right, t = left ++ '=' :: right ∧ '=' ∉ left ∧ '=' ∉ right ∧ left.length ≤ 2

theorem dropShortLeft_cases (u : Text) :
    (¬ShortLeft u ∧ dropShortLeft u = u) ∨
      (ShortLeft u ∧ ∃ left right, u = left ++ '=' :: right ∧ left.length ≤ 2 ∧
        dropShortLeft u = right) := by
  by_cases two : ∃ left right, splitOn ['='] u = [left, right]
  · obtain ⟨left, right, two⟩ := two
    obtain ⟨same, inLeft, inRight⟩ := splitOn_single_eq_pair.mp two
    by_cases short : left.length ≤ 2
    · refine .inr ⟨⟨left, right, same, inLeft, inRight, short⟩, left, right, same, short, ?_⟩
      simp only [dropShortLeft, two, if_pos short]
    · refine .inl ⟨?_, by simp only [dropShortLeft, two, if_neg short]⟩
      rintro ⟨left', right', same', inLeft', inRight', short'⟩
      obtain ⟨rfl, -⟩ := Text.append_injective inLeft inLeft' (same.symm.trans same')
      exact short short'
  · refine .inl ⟨?_, ?_⟩
    · rintro ⟨left, right, same, inLeft, inRight, -⟩
      exact two ⟨left, right, splitOn_single_eq_pair.mpr ⟨same, inLeft, inRight⟩⟩
    · rw [dropShortLeft]
      split
      · rename_i left right pair
        exact absurd ⟨left, right, pair⟩ two
      · rfl

theorem neg_length_le_weight (s : Text) : -(s.length : Int) ≤ weight cost s := by
  induction s with
  | nil => simp
  | cons c s ih =>
    have least : -1 ≤ cost c := by
      rw [cost]
      split
      · omega
      · split
        · omega
        · split <;> omega
    simp only [List.length_cons, weight_cons]
    omega

theorem dropShortLeft_pass : Pass (fun u => .ok (dropShortLeft u)) where
  within := by
    intro u v result c member
    left
    cases result
    rcases dropShortLeft_cases u with ⟨-, kept⟩ | ⟨-, left, right, rfl, -, dropped⟩
    · rwa [kept] at member
    · rw [dropped] at member
      exact List.mem_append_right left (List.mem_cons_of_mem _ member)
  lighter := by
    intro u v _ result
    cases result
    rcases dropShortLeft_cases u with ⟨-, kept⟩ | ⟨-, left, right, rfl, short, dropped⟩
    · exact .inl kept
    · right
      have least := neg_length_le_weight left
      have sign : cost '=' = 4 := by decide
      rw [dropped, weight_append, weight_cons, sign]
      omega

theorem dropShortLeft_fixed_iff : dropShortLeft t = t ↔ ¬ShortLeft t := by
  constructor
  · rintro fixed short
    rcases dropShortLeft_cases t with ⟨long, -⟩ | ⟨-, left, right, same, -, dropped⟩
    · exact long short
    · have lengths := congrArg List.length (same.symm.trans (fixed.symm.trans dropped))
      simp at lengths
      omega
  · intro long
    rcases dropShortLeft_cases t with ⟨-, kept⟩ | ⟨short, -⟩
    · exact kept
    · exact absurd short long

theorem spaces_lightens : Lightens ([' '], []) := by decide

theorem half_pass : Pass (fun u => .ok (half u)) where
  within := by
    intro u v result c member
    cases result
    rw [half] at member
    split at member
    · have all : (fracText ['1'] ['2']).all (fun c => added.contains c) = true := by decide
      exact .inr (List.contains_iff_mem.mp (List.all_eq_true.mp all c member))
    · exact .inl member
  lighter := by
    intro u v _ result
    cases result
    rw [half]
    split
    · rename_i isHalf
      subst isHalf
      exact .inr (by decide)
    · exact .inl rfl

variable {int : Text → Option Int}

theorem fixASlashB_ok (result : fixASlashB int u = .ok v) :
    v = u ∨ ∃ x y, u = ofInt x ++ ['/'] ++ ofInt y ∧ v = fracText (ofInt x) (ofInt y) := by
  rw [fixASlashB] at result
  by_cases two : ∃ a b, splitOn ['/'] u = [a, b]
  · obtain ⟨a, b, two⟩ := two
    rcases readA : int a with _ | x
    · obtain ⟨same, left, right⟩ := splitOn_single_eq_pair.mp two
      obtain ⟨e, raised⟩ := (fixASlashB_unreadable ⟨a, b, same, left, right, .inl readA⟩).1
      cases raised.symm.trans result
    · rcases readB : int b with _ | y
      · obtain ⟨same, left, right⟩ := splitOn_single_eq_pair.mp two
        obtain ⟨e, raised⟩ := (fixASlashB_unreadable ⟨a, b, same, left, right, .inr readB⟩).1
        cases raised.symm.trans result
      · rw [fixASlashBWith_readable rfl two readA readB] at result
        split at result
        · rename_i same
          exact .inr ⟨x, y, same, (Except.ok.inj result).symm⟩
        · exact .inl (Except.ok.inj result).symm
  · rw [fixASlashBWith_other (fun a b there => two ⟨a, b, there⟩)] at result
    exact .inl (Except.ok.inj result).symm

theorem fixASlashB_pass : Pass (fixASlashB int) where
  within := by
    intro u v result c member
    rcases fixASlashB_ok result with rfl | ⟨x, y, rfl, rfl⟩
    · exact .inl member
    · have braces : '\x7b' ∈ added ∧ '\x7d' ∈ added := by decide
      simp only [fracText, List.mem_append, List.mem_cons, List.not_mem_nil, or_false] at member ⊢
      rcases member with ((((inFrac | rfl) | inX) | (rfl | rfl)) | inY) | rfl
      · exact .inr (frac_added c inFrac)
      · exact .inr braces.1
      · exact .inl (.inl (.inl inX))
      · exact .inr braces.2
      · exact .inr braces.1
      · exact .inl (.inr inY)
      · exact .inr braces.2
  lighter := by
    intro u v _ result
    rcases fixASlashB_ok result with rfl | ⟨x, y, rfl, rfl⟩
    · exact .inl rfl
    · right
      have word : weight cost frac.word = 5 := by decide
      have slash : cost '/' = 100 := by decide
      have braces : cost '\x7b' = -1 ∧ cost '\x7d' = -1 := by decide
      simp only [fracText, weight_append, weight_cons, weight_nil, word, slash, braces]
      omega

end Steps

section Outputs

variable {int : Text → Option Int} {s t u v : Text}

theorem frac_fresh_behind {a : Char} {rest : Text} (fresh : ¬frac.word <:+: rest) :
    ¬frac.word <:+: ['\x7b', a] ++ '\x7d' :: rest := by
  rw [Marker.infix_append_iff _ _ (by decide)]
  rintro (inside | behind)
  · have := inside.length_le
    simp [Marker.word, frac] at this
  · rcases List.infix_cons_iff.mp behind with here | later
    · have := (List.cons_prefix_cons.mp here).1
      exact absurd this (by decide)
    · exact fresh later

theorem fracPiece_fresh {piece new : Text} (fixes : fracPiece piece = .ok (some new))
    (fresh : ¬frac.word <:+: piece) :
    ¬frac.word <:+: new ∧ ∃ rest, new = '\x7b' :: rest := by
  rcases fracPiece_ok fixes with ⟨rfl, brace⟩ | ⟨a, b, post, rfl, rfl⟩ | ⟨a, post, rfl, rfl⟩
  · exact ⟨fresh, brace⟩
  · have tail : ¬frac.word <:+: post :=
      fun inside => fresh (List.infix_cons (List.infix_cons inside))
    exact ⟨frac_fresh_behind (frac_fresh_behind tail), _, rfl⟩
  · have tail : ¬frac.word <:+: '\x7b' :: post := fun inside => fresh (List.infix_cons inside)
    exact ⟨frac_fresh_behind tail, _, rfl⟩

theorem fixFracs_of_braces {first : Text} {pieces : List Text}
    (fresh : ∀ piece ∈ first :: pieces, ¬frac.word <:+: piece)
    (braces : ∀ piece ∈ pieces, ∃ rest, piece = '\x7b' :: rest) :
    fixFracs (List.intercalate frac.word (first :: pieces)) =
      .ok (List.intercalate frac.word (first :: pieces)) := by
  refine fixPieces_of_forall₂ (splitOn_intercalate (List.cons_ne_nil first pieces) fresh)
    (List.forall₂_same.mpr ?_)
  intro piece member
  obtain ⟨rest, rfl⟩ := braces piece member
  rfl

theorem fixFracs_idempotent (result : fixFracs u = .ok v) : fixFracs v = .ok v := by
  rcases fixPieces_ok result with ⟨-, rfl⟩ | ⟨first, pieces, fixed, cut, related, rfl⟩
  · exact result
  · have fresh : ∀ piece ∈ first :: pieces, ¬frac.word <:+: piece :=
      fun piece member => splitOn_fresh (cut ▸ member)
    have each : ∀ new ∈ fixed, ¬frac.word <:+: new ∧ ∃ rest, new = '\x7b' :: rest := by
      intro new member
      obtain ⟨piece, there, fixes⟩ := exists_left_of_forall₂ related member
      exact fracPiece_fresh fixes (fresh piece (List.mem_cons_of_mem first there))
    refine fixFracs_of_braces ?_ (fun new member => (each new member).2)
    intro piece member
    rcases List.mem_cons.mp member with rfl | later
    · exact fresh piece List.mem_cons_self
    · exact (each piece later).1

theorem fixFracs_fracText {a b : Text} (inA : '\\' ∉ a) (inB : '\\' ∉ b) :
    fixFracs (fracText a b) = .ok (fracText a b) := by
  let body : Text := '\x7b' :: (a ++ ['\x7d', '\x7b'] ++ b ++ ['\x7d'])
  have same : fracText a b = List.intercalate frac.word [[], body] := by
    rw [List.intercalate_cons_cons, List.intercalate_singleton, fracText]
    simp [body]
  have head : '\\' ∉ body := by simp [body, inA, inB]
  rw [same]
  refine fixFracs_of_braces ?_ ?_
  · intro piece member
    rcases List.mem_pair.mp member with rfl | rfl
    · exact fun inside => absurd (List.infix_nil.mp inside) (List.cons_ne_nil _ _)
    · exact fun inside => head (inside.subset List.mem_cons_self)
  · intro piece member
    exact ⟨_, List.mem_singleton.mp member⟩

theorem backslash_notMem_ofInt (n : Int) : '\\' ∉ ofInt n := notMem_ofInt (by decide) (by decide) n

theorem half_fracText (a b : Text) : half (fracText a b) = fracText a b := by
  rw [half, if_neg]
  intro same
  cases same

theorem fixASlashB_fracText (x y : Int) :
    fixASlashB int (fracText (ofInt x) (ofInt y)) = .ok (fracText (ofInt x) (ofInt y)) := by
  have inX : '/' ∉ ofInt x := notMem_ofInt (by decide) (by decide) x
  have inY : '/' ∉ ofInt y := notMem_ofInt (by decide) (by decide) y
  have none : '/' ∉ fracText (ofInt x) (ofInt y) := by
    have word : '/' ∉ frac.word := by decide
    simp [fracText, inX, inY, word]
  refine fixASlashBWith_other (fun a b two => none ?_)
  rw [(splitOn_single_eq_pair.mp two).1]
  simp

theorem removeMarkup_eq : removeMarkup = fun u =>
    .ok (replaceAll markup u) >>= fun u => removeRightUnits u >>= fun u =>
      .ok (replaceAll percentsAndDots u) := by
  funext u
  simp only [removeMarkup, ok_bind, pure_eq_ok]

theorem afterMarkup_pass :
    Pass (fun u => removeRightUnits u >>= fun u => .ok (replaceAll percentsAndDots u)) :=
  removeRightUnits_pass.bind (replaceAll_pass percentsAndDots_lightens)

theorem removeMarkup_pass : Pass removeMarkup := by
  rw [removeMarkup_eq]
  exact (replaceAll_pass markup_lightens).bind afterMarkup_pass

theorem newline_notMem_removeMarkup (result : removeMarkup s = .ok u) : '\n' ∉ u := by
  have tail : ∀ pair ∈ markup.tail, Lightens pair :=
    fun pair member => markup_lightens pair (List.mem_of_mem_tail member)
  have foreign : '\n' ∉ added := by decide
  have lines : markup = (['\n'], []) :: markup.tail := by decide
  rw [removeMarkup_eq, lines] at result
  simp only [replaceAll_cons] at result
  exact ((replaceAll_pass tail).bind afterMarkup_pass).notMem foreign
    (notMem_replace List.not_mem_nil s) result

theorem afterSqrt_pass :
    Pass (fun u => .ok (replace [' '] [] u) >>= fun u => fixFracs u >>= fun u => .ok (half u)) :=
  (replace_pass spaces_lightens).bind (fixFracs_pass.bind half_pass)

theorem fixNumbers_pass : Pass fixNumbers :=
  leadingZero_pass.bind (dropShortLeft_pass.bind (fixSqrt_pass.bind afterSqrt_pass))

/-- The passes behind the test for the empty string, with the test. -/
def unlessEmpty (int : Text → Option Int) (u : Text) : Py Text :=
  if u = [] then .ok u else fixNumbers u >>= fixASlashB int

theorem unlessEmpty_pass : Pass (unlessEmpty int) where
  within := by
    intro u v result
    rw [unlessEmpty] at result
    split at result
    · exact id_pass.within result
    · exact (fixNumbers_pass.bind fixASlashB_pass).within result
  lighter := by
    intro u v noSpace result
    rw [unlessEmpty] at result
    split at result
    · exact id_pass.lighter noSpace result
    · exact (fixNumbers_pass.bind fixASlashB_pass).lighter noSpace result

theorem stripString_eq (int : Text → Option Int) (s : Text) :
    stripString int s = removeMarkup s >>= unlessEmpty int := rfl

structure Output (int : Text → Option Int) (t : Text) : Prop where
  noSpace : ' ' ∉ t
  noNewline : '\n' ∉ t
  fracs : fixFracs t = .ok t
  halved : half t = t
  slashed : fixASlashB int t = .ok t

theorem half_output (result : fixFracs u = .ok v) :
    fixFracs (half v) = .ok (half v) ∧ half (half v) = half v := by
  by_cases isHalf : v = "0.5".toList
  · have same : half v = fracText ['1'] ['2'] := if_pos isHalf
    rw [same]
    exact ⟨fixFracs_fracText (by decide) (by decide), half_fracText _ _⟩
  · have same : half v = v := if_neg isHalf
    rw [same]
    exact ⟨fixFracs_idempotent result, same⟩

theorem stripString_output (result : stripString int s = .ok t) : Output int t := by
  rw [stripString_eq] at result
  obtain ⟨u, marked, rest⟩ := bind_ok_iff.mp result
  have noNewline := unlessEmpty_pass.notMem (by decide) (newline_notMem_removeMarkup marked) rest
  rw [unlessEmpty] at rest
  split at rest
  · rename_i empty
    subst empty
    cases rest
    exact ⟨List.not_mem_nil, List.not_mem_nil, rfl, rfl, rfl⟩
  · obtain ⟨w, numbers, slashed⟩ := bind_ok_iff.mp rest
    obtain ⟨x, -, spaced⟩ := bind_ok_iff.mp numbers
    obtain ⟨v, fracs, halved⟩ := bind_ok_iff.mp spaced
    cases halved
    have noSpaceV : ' ' ∉ v :=
      fixFracs_pass.notMem (by decide) (notMem_replace List.not_mem_nil x) fracs
    have noSpace := (half_pass.bind fixASlashB_pass).notMem (by decide) noSpaceV slashed
    rcases fixASlashB_ok slashed with rfl | ⟨a, b, -, rfl⟩
    · obtain ⟨settled, kept⟩ := half_output fracs
      exact ⟨noSpace, noNewline, settled, kept, slashed⟩
    · exact ⟨noSpace, noNewline,
        fixFracs_fracText (backslash_notMem_ofInt a) (backslash_notMem_ofInt b), half_fracText _ _,
        fixASlashB_fracText a b⟩

end Outputs

section FixedPoints

variable {int : Text → Option Int} {s t : Text}

/-- Nothing that an earlier pass would rewrite: no word of the replacements, no dot in front, no
short left-hand side, and a brace behind every square root. -/
structure Settled (t : Text) : Prop where
  words : ∀ pair ∈ markup ++ percentsAndDots, ¬pair.1 <:+: t
  start : t.head? ≠ some '.'
  equation : ¬ShortLeft t
  roots : ∀ piece ∈ (splitOn sqrt.word t).tail, piece.head? = some '\x7b'

theorem removeMarkup_fixed_iff (noSpace : ' ' ∉ t) :
    removeMarkup t = .ok t ↔ ∀ pair ∈ markup ++ percentsAndDots, ¬pair.1 <:+: t := by
  have first := (replaceAll_pass markup_lightens).bind_fixed_iff afterMarkup_pass noSpace
  have second := removeRightUnits_pass.bind_fixed_iff
    (replaceAll_pass percentsAndDots_lightens) noSpace
  rw [List.forall_mem_append, ← replaceAll_fixed_iff markup_lightens noSpace,
    ← replaceAll_fixed_iff percentsAndDots_lightens noSpace, removeMarkup_eq, first, second]
  simp only [Except.ok.injEq, removeRightUnits_of_noSpace noSpace, true_and]

theorem fixNumbers_fixed_iff (output : Output int t) :
    fixNumbers t = .ok t ↔
      t.head? ≠ some '.' ∧ ¬ShortLeft t ∧ ∀ piece ∈ (splitOn sqrt.word t).tail,
        piece.head? = some '\x7b' := by
  have noSpace := output.noSpace
  have zero := leadingZero_pass.bind_fixed_iff
    (dropShortLeft_pass.bind (fixSqrt_pass.bind afterSqrt_pass)) noSpace
  have left := dropShortLeft_pass.bind_fixed_iff (fixSqrt_pass.bind afterSqrt_pass) noSpace
  have roots := fixSqrt_pass.bind_fixed_iff afterSqrt_pass noSpace
  have blank : replace [' '] [] t = t :=
    replace_of_absent (fun occurs => noSpace ((List.singleton_infix_iff _ _).mp occurs)) []
  have rest : (.ok (replace [' '] [] t) >>= fun u => fixFracs u >>= fun u => .ok (half u)) =
      Except.ok t := by
    rw [blank, ok_bind, output.fracs, ok_bind, output.halved]
  refine zero.trans ?_
  rw [left, roots, fixSqrt_fixed_iff]
  simp only [Except.ok.injEq, leadingZero_fixed_iff, dropShortLeft_fixed_iff, rest, and_true]

theorem stripString_fixed_iff (output : Output int t) : stripString int t = .ok t ↔ Settled t := by
  rw [stripString_eq, removeMarkup_pass.bind_fixed_iff unlessEmpty_pass output.noSpace,
    removeMarkup_fixed_iff output.noSpace]
  by_cases empty : t = []
  · subst empty
    constructor
    · rintro ⟨words, -⟩
      exact ⟨words, by decide, by rintro ⟨left, right, same, -⟩; simp at same, by decide⟩
    · exact fun settled => ⟨settled.words, rfl⟩
  · rw [unlessEmpty, if_neg empty, fixNumbers_pass.bind_fixed_iff fixASlashB_pass output.noSpace,
      fixNumbers_fixed_iff output]
    constructor
    · rintro ⟨words, ⟨start, equation, roots⟩, -⟩
      exact ⟨words, start, equation, roots⟩
    · exact fun settled =>
        ⟨settled.words, ⟨settled.start, settled.equation, settled.roots⟩, output.slashed⟩

theorem primeStripString_of_plain (int : Text → Option Int) (plain : Plain t) :
    primeStripString int t = .ok t := by
  have foreign : ∀ c : Char, ¬PlainChar c → c ∉ t := fun c other => plain.notMem other
  have backslash := foreign '\\' (by decide)
  have noFrac : ¬frac.word <:+: t := fun occurs => backslash (occurs.subset List.mem_cons_self)
  have noSqrt : ¬sqrt.word <:+: t := fun occurs => backslash (occurs.subset List.mem_cons_self)
  have noSlash : ∀ a b, splitOn ['/'] t ≠ [a, b] := by
    intro a b two
    exact foreign '/' (by decide) (by rw [(splitOn_single_eq_pair.mp two).1]; simp)
  have output : Output int t := by
    refine ⟨foreign ' ' (by decide), foreign '\n' (by decide), ?_, ?_, fixASlashBWith_other noSlash⟩
    · rw [fixFracs, fixPieces_of_forall₂ (splitOn_of_absent noFrac) .nil,
        List.intercalate_singleton]
    · rw [half, if_neg]
      rintro rfl
      exact foreign '.' (by decide) (by decide)
  have words : ∀ pair ∈ markup ++ percentsAndDots, ¬pair.1 <:+: t := by
    have marked := exists_foreign ((markup ++ percentsAndDots).map Prod.fst) (by decide)
    intro pair member occurs
    obtain ⟨c, inside, other⟩ := marked pair.1 (List.mem_map_of_mem member)
    exact foreign c other (occurs.subset inside)
  have marked : removeMarkup t = .ok t := (removeMarkup_fixed_iff output.noSpace).mpr words
  have numbers : fixNumbers t = .ok t := by
    rw [fixNumbers_fixed_iff output]
    refine ⟨?_, ?_, ?_⟩
    · intro dot
      exact foreign '.' (by decide) (List.mem_of_mem_head? dot)
    · rintro ⟨left, right, rfl, -⟩
      exact foreign '=' (by decide) (by simp)
    · rw [splitOn_of_absent noSqrt]
      simp
  rw [primeStripString, primeFixASlashB, stripWith_eq, beforeSlash, marked, ok_bind]
  split
  · exact fixASlashBWith_other noSlash
  · rw [numbers, ok_bind, fixASlashBWith_other noSlash]

theorem isEquiv_result_iff (result : stripString int s = .ok t) :
    isEquiv int (some s) (some t) = true ↔ stripString int t = .ok t := by
  delta isEquiv
  simp only [result]
  cases again : stripString int t with
  | ok u => rw [beq_iff_eq, Except.ok.injEq, eq_comm]
  | error e =>
    simp only [beq_iff_eq, reduceCtorEq, iff_false]
    rintro rfl
    rw [again] at result
    cases result

/-- A result is kept by a second run, and equivalent to the answer it comes from, exactly when it
is settled. -/
theorem strip_string_settles_iff (int : Text → Option Int) (s t : Text)
    (result : stripString int s = .ok t) :
    (stripString int t = .ok t ↔ Settled t) ∧
      (isEquiv int (some s) (some t) = true ↔ Settled t) := by
  have once := stripString_fixed_iff (stripString_output result)
  exact ⟨once, (isEquiv_result_iff result).trans once⟩

theorem strip_string_settles_short_equation :
    stripString int? "x=5".toList = .ok "5".toList ∧
      (stripString int? "5".toList = .ok "5".toList ↔ Settled "5".toList) :=
  have result : stripString int? "x=5".toList = .ok "5".toList := by decide +kernel
  ⟨result, (strip_string_settles_iff int? _ _ result).1⟩

theorem strip_string_not_idempotent :
    stripString int? "x=.5".toList = .ok ".5".toList ∧
      stripString int? ".5".toList = .ok "\\frac\x7b1\x7d\x7b2\x7d".toList ∧
      isEquiv int? (some "x=.5".toList) (some ".5".toList) = false := by
  refine ⟨?_, ?_, ?_⟩ <;> decide +kernel

end FixedPoints

end Verl.StripString
