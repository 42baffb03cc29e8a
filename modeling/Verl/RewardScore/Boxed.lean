import Verl.Base.Blocks
import Verl.Base.Brackets
import Verl.Base.Search
import Verl.Base.Strings

/-! The two extractors of the last boxed answer: `last_boxed_only_string` with `remove_boxed` of
`verl/utils/reward_score/math.py`, and `_last_boxed_only_string` of
`verl/utils/reward_score/prime_math/__init__.py`. -/
namespace Verl.Boxed
open Text

section Model

def boxed : Marker Char := ⟨'\\', "boxed".toList, by decide⟩

def boxedSpace : Marker Char := ⟨'\\', "boxed ".toList, by decide⟩

def fbox : Marker Char := ⟨'\\', "fbox".toList, by decide⟩

def braces : Brackets Char := ⟨'\x7b', '\x7d', by decide⟩

/-- The scan of `math.py` from position `i` on, with the number of braces open. -/
def rightBraceIdx : Text → Nat → Int → Option Nat
  | [], _, _ => none
  | c :: rest, i, numLeftBracesOpen =>
    let opened := if c = braces.left then numLeftBracesOpen + 1 else numLeftBracesOpen
    if c = braces.right then
      if opened - 1 = 0 then some i else rightBraceIdx rest (i + 1) (opened - 1)
    else rightBraceIdx rest (i + 1) opened

def boxIdx (string : Text) : Option Nat :=
  match rfind boxed.word string with
  | some idx => some idx
  | none => rfind fbox.word string

def lastBoxedOnlyString (string : Text) : Option Text :=
  if boxedSpace.word <:+: string then
    some (boxedSpace.word ++
      (splitOn ['$'] ((splitOn boxedSpace.word string).getLast (splitOn_ne_nil _ _))).head
      (splitOn_ne_nil _ _))
  else
    match boxIdx string with
    | none => none
    | some idx =>
      match rightBraceIdx (string.drop idx) idx 0 with
      | none => none
      | some right => some (slice idx (right + 1) string)

def removeBoxed : Option Text → Py Text
  | none => .error (.type "argument of type 'NoneType' is not iterable")
  | some s =>
    if boxedSpace.word <:+: s then do
      pyAssert (s.take boxedSpace.word.length == boxedSpace.word) ""
      return s.drop boxedSpace.word.length
    else do
      let left := boxed.word ++ [braces.left]
      pyAssert (s.take left.length == left) ""
      match s.getLast? with
      | none => .error .index
      | some c => do
        pyAssert (c == braces.right) ""
        return s.dropLast.drop left.length

def mathExtract (string : Text) : Py Text := removeBoxed (lastBoxedOnlyString string)

def braceIdxs : Text → Nat → Option Nat → Int → Option Nat × Option Nat
  | [], _, left, _ => (left, none)
  | c :: rest, i, left, numLeftBracesOpen =>
    if c = braces.left then braceIdxs rest (i + 1) (left.or (some i)) (numLeftBracesOpen + 1)
    else if c = braces.right then
      if numLeftBracesOpen - 1 = 0 then
        (left, some i)
      else braceIdxs rest (i + 1) left (numLeftBracesOpen - 1)
    else braceIdxs rest (i + 1) left numLeftBracesOpen

def primeLastBoxedOnlyString (string : Text) : Option Text :=
  match boxIdx string with
  | none => none
  | some idx =>
    match braceIdxs (string.drop idx) idx none 0 with
    | (some left, some right) => some (strip (slice (left + 1) right string))
    | _ => none

end Model

section Scan

theorem rightBraceIdx_cons (c : Char) (rest : Text) (i : Nat) (d : Int) :
    rightBraceIdx (c :: rest) i d =
      if c = braces.right ∧ d = 1 then
        some i
      else rightBraceIdx rest (i + 1) (d + braces.height [c]) := by
  by_cases left : c = braces.left
  · subst left
    have apart := braces.apart
    simp [rightBraceIdx, apart]
  · by_cases right : c = braces.right
    · subst right
      have step : d + -1 = 0 ↔ d = 1 := by omega
      simp [rightBraceIdx, left, step, Int.sub_eq_add_neg]
    · simp [rightBraceIdx, left, right, Brackets.height_other left right]

theorem braceIdxs_cons (c : Char) (rest : Text) (i : Nat) (left : Option Nat) (d : Int) :
    braceIdxs (c :: rest) i left d =
      if c = braces.right ∧ d = 1 then (left, some i)
      else braceIdxs rest (i + 1) (left.or (if c = braces.left then some i else none))
        (d + braces.height [c]) := by
  by_cases isLeft : c = braces.left
  · subst isLeft
    have apart := braces.apart
    simp [braceIdxs, apart]
  · by_cases right : c = braces.right
    · subst right
      have step : d + -1 = 0 ↔ d = 1 := by omega
      simp [braceIdxs, isLeft, step, Int.sub_eq_add_neg]
    · simp [braceIdxs, isLeft, right, Brackets.height_other isLeft right]

theorem rightBraceIdx_skip {w : Text} (t : Text) (i : Nat) (d : Int) (noLeft : braces.left ∉ w)
    (noRight : braces.right ∉ w) :
    rightBraceIdx (w ++ t) i d = rightBraceIdx t (i + w.length) d := by
  induction w generalizing i with
  | nil => rfl
  | cons c w ih =>
    have notLeft : c ≠ braces.left := fun same => noLeft (same ▸ List.mem_cons_self)
    have notRight : c ≠ braces.right := fun same => noRight (same ▸ List.mem_cons_self)
    rw [List.cons_append, rightBraceIdx_cons, if_neg (fun stop => notRight stop.1),
      Brackets.height_other notLeft notRight, Int.add_zero,
      ih _ (fun there => noLeft (List.mem_cons_of_mem c there))
        (fun there => noRight (List.mem_cons_of_mem c there)), List.length_cons]
    congr 1
    omega

theorem braceIdxs_skip {w : Text} (t : Text) (i : Nat) (left : Option Nat) (d : Int)
    (noLeft : braces.left ∉ w) (noRight : braces.right ∉ w) :
    braceIdxs (w ++ t) i left d = braceIdxs t (i + w.length) left d := by
  induction w generalizing i with
  | nil => rfl
  | cons c w ih =>
    have notLeft : c ≠ braces.left := fun same => noLeft (same ▸ List.mem_cons_self)
    have notRight : c ≠ braces.right := fun same => noRight (same ▸ List.mem_cons_self)
    rw [List.cons_append, braceIdxs_cons, if_neg (fun stop => notRight stop.1), if_neg notLeft,
      Option.or_none, Brackets.height_other notLeft notRight, Int.add_zero,
      ih _ (fun there => noLeft (List.mem_cons_of_mem c there))
        (fun there => noRight (List.mem_cons_of_mem c there)), List.length_cons]
    congr 1
    omega

theorem rightBraceIdx_of_closes {body : Text} {d : Int} (closes : braces.Closes d body)
    (rest : Text) (i : Nat) :
    rightBraceIdx (body ++ braces.right :: rest) i d = some (i + body.length) := by
  induction body generalizing i d with
  | nil =>
    rw [List.nil_append, rightBraceIdx_cons, if_pos ⟨rfl, Brackets.closes_nil_iff.mp closes⟩]
    rfl
  | cons c body ih =>
    obtain ⟨notHere, later⟩ := Brackets.closes_cons_iff.mp closes
    rw [List.cons_append, rightBraceIdx_cons, if_neg (fun stop => notHere stop.1 stop.2), ih later,
      List.length_cons]
    congr 1
    omega

theorem exists_closes_of_rightBraceIdx {t : Text} {i right : Nat} {d : Int}
    (found : rightBraceIdx t i d = some right) :
    ∃ body rest, t = body ++ braces.right :: rest ∧ braces.Closes d body := by
  induction t generalizing i d with
  | nil => cases found
  | cons c t ih =>
    rw [rightBraceIdx_cons] at found
    by_cases stop : c = braces.right ∧ d = 1
    · obtain ⟨rfl, rfl⟩ := stop
      exact ⟨[], t, rfl, Brackets.closes_nil_iff.mpr rfl⟩
    · rw [if_neg stop] at found
      obtain ⟨body, rest, rfl, closes⟩ := ih found
      exact ⟨c :: body, rest, rfl,
        Brackets.closes_cons_iff.mpr ⟨fun isRight one => stop ⟨isRight, one⟩, closes⟩⟩

theorem braceIdxs_snd (t : Text) (i : Nat) (left : Option Nat) (d : Int) :
    (braceIdxs t i left d).2 = rightBraceIdx t i d := by
  induction t generalizing i left d with
  | nil => rfl
  | cons c t ih =>
    rw [braceIdxs_cons, rightBraceIdx_cons]
    split
    · rfl
    · exact ih _ _ _

theorem braceIdxs_fst_some (t : Text) (i l : Nat) (d : Int) :
    (braceIdxs t i (some l) d).1 = some l := by
  induction t generalizing i d with
  | nil => rfl
  | cons c t ih =>
    rw [braceIdxs_cons]
    split
    · rfl
    · exact ih _ _

theorem braceIdxs_fst {x y : Text} {d : Int} (closes : braces.Closes d (x ++ braces.left :: y))
    (first : braces.left ∉ x) (rest : Text) (i : Nat) :
    (braceIdxs (x ++ braces.left :: (y ++ braces.right :: rest)) i none d).1 =
      some (i + x.length) := by
  induction x generalizing i d with
  | nil =>
    rw [List.nil_append, braceIdxs_cons, if_neg (fun stop => braces.apart stop.1), if_pos rfl,
      Option.none_or, braceIdxs_fst_some]
    rfl
  | cons c x ih =>
    obtain ⟨notHere, later⟩ := Brackets.closes_cons_iff.mp closes
    have notLeft : c ≠ braces.left := fun same => first (same ▸ List.mem_cons_self)
    rw [List.cons_append, braceIdxs_cons, if_neg (fun stop => notHere stop.1 stop.2),
      if_neg notLeft, Option.or_none, ih later (fun there => first (List.mem_cons_of_mem c there)),
      List.length_cons]
    congr 1
    omega

/-- Behind the command: what stands before the first left brace, and the group it opens. -/
def Group (tail x y : Text) : Prop :=
  (∃ rest, tail = x ++ braces.left :: (y ++ braces.right :: rest)) ∧ braces.left ∉ x ∧
    braces.Closes 0 (x ++ braces.left :: y)

theorem Group.rightBraceIdx {tail x y : Text} (group : Group tail x y) (i : Nat) :
    rightBraceIdx tail i 0 = some (i + x.length + 1 + y.length) := by
  obtain ⟨⟨rest, rfl⟩, -, closes⟩ := group
  have scan := rightBraceIdx_of_closes closes rest i
  rw [List.append_assoc, List.cons_append] at scan
  rw [scan, List.length_append, List.length_cons]
  congr 1
  omega

theorem Group.braceIdxs {tail x y : Text} (group : Group tail x y) (i : Nat) :
    braceIdxs tail i none 0 = (some (i + x.length), some (i + x.length + 1 + y.length)) := by
  rw [← group.rightBraceIdx, ← braceIdxs_snd]
  obtain ⟨⟨rest, rfl⟩, first, closes⟩ := group
  rw [← braceIdxs_fst closes first rest i]

theorem exists_group {tail : Text} {i right : Nat}
    (found : Boxed.rightBraceIdx tail i 0 = some right) :
    ∃ x y, Group tail x y := by
  obtain ⟨body, rest, rfl, closes⟩ := exists_closes_of_rightBraceIdx found
  obtain ⟨x, y, rfl, first⟩ := List.eq_append_cons_of_mem (Brackets.left_mem_of_closes closes)
  exact ⟨x, y, ⟨rest, by simp⟩, first, closes⟩

end Scan

section Extract

theorem slice_middle (u v w : Text) : slice u.length (u.length + v.length) (u ++ v ++ w) = v := by
  rw [slice, List.append_assoc, List.drop_left, Nat.add_sub_cancel_left, List.take_left]

theorem boxIdx_boxed (p : Text) {tail : Text} (last : ¬boxed.word <:+: tail) :
    boxIdx (p ++ boxed.word ++ tail) = some p.length := by
  rw [boxIdx, rfind_last p last]

theorem boxIdx_fbox {p tail : Text} (none : ¬boxed.word <:+: p ++ fbox.word ++ tail)
    (last : ¬fbox.word <:+: tail) :
    boxIdx (p ++ fbox.word ++ tail) = some p.length := by
  simp only [boxIdx, rfind_none none, rfind_last p last]

theorem boxIdx_none {s : Text} (noBoxed : ¬boxed.word <:+: s) (noFbox : ¬fbox.word <:+: s) :
    boxIdx s = none := by
  simp only [boxIdx, rfind_none noBoxed, rfind_none noFbox]

variable {p tail x y : Text} {command : Marker Char} (noLeft : braces.left ∉ command.word)
  (noRight : braces.right ∉ command.word)
  (chosen : boxIdx (p ++ command.word ++ tail) = some p.length)
include noLeft noRight chosen

theorem primeLastBoxedOnlyString_group (group : Group tail x y) :
    primeLastBoxedOnlyString (p ++ command.word ++ tail) = some (strip y) := by
  have scan : braceIdxs ((p ++ command.word ++ tail).drop p.length) p.length none 0 =
      (some (p.length + command.word.length + x.length),
        some (p.length + command.word.length + x.length + 1 + y.length)) := by
    rw [List.append_assoc, List.drop_left, braceIdxs_skip tail _ _ _ noLeft noRight,
      group.braceIdxs]
  simp only [primeLastBoxedOnlyString, chosen, scan]
  obtain ⟨⟨rest, rfl⟩, -, -⟩ := group
  have middle := slice_middle (p ++ command.word ++ x ++ [braces.left]) y (braces.right :: rest)
  simp only [List.length_append, List.length_singleton, List.append_assoc, List.cons_append,
    List.nil_append, Nat.add_assoc] at middle ⊢
  rw [middle]

theorem primeLastBoxedOnlyString_none (none : ∀ x y, ¬Group tail x y) :
    primeLastBoxedOnlyString (p ++ command.word ++ tail) = .none := by
  cases scan : rightBraceIdx tail (p.length + command.word.length) 0 with
  | none =>
    have stop : (braceIdxs ((p ++ command.word ++ tail).drop p.length) p.length .none 0).2 =
        .none := by
      rw [List.append_assoc, List.drop_left, braceIdxs_skip tail _ _ _ noLeft noRight,
        braceIdxs_snd, scan]
    simp only [primeLastBoxedOnlyString, chosen]
    split
    · rename_i both
      rw [both] at stop
      cases stop
    · rfl
  | some right =>
    obtain ⟨x, y, group⟩ := exists_group scan
    exact absurd group (none x y)

variable (plain : ¬boxedSpace.word <:+: p ++ command.word ++ tail)
include plain

theorem lastBoxedOnlyString_group (group : Group tail x y) :
    lastBoxedOnlyString (p ++ command.word ++ tail) =
      some (command.word ++ (x ++ braces.left :: (y ++ [braces.right]))) := by
  have scan : rightBraceIdx ((p ++ command.word ++ tail).drop p.length) p.length 0 =
      some (p.length + command.word.length + x.length + 1 + y.length) := by
    rw [List.append_assoc, List.drop_left, rightBraceIdx_skip tail _ _ noLeft noRight,
      group.rightBraceIdx]
  simp only [lastBoxedOnlyString, if_neg plain, chosen, scan]
  obtain ⟨⟨rest, rfl⟩, -, -⟩ := group
  have middle := slice_middle p (command.word ++ (x ++ braces.left :: (y ++ [braces.right]))) rest
  simp only [List.length_append, List.length_cons, List.length_nil, List.append_assoc,
    List.cons_append, List.nil_append]
    at middle ⊢
  rw [← middle]
  congr 2
  omega

theorem lastBoxedOnlyString_none (none : ∀ x y, ¬Group tail x y) :
    lastBoxedOnlyString (p ++ command.word ++ tail) = .none := by
  cases scan : rightBraceIdx tail (p.length + command.word.length) 0 with
  | none =>
    simp only [lastBoxedOnlyString, if_neg plain, chosen]
    rw [List.append_assoc, List.drop_left, rightBraceIdx_skip tail _ _ noLeft noRight, scan]
  | some right =>
    obtain ⟨x, y, group⟩ := exists_group scan
    exact absurd group (none x y)

end Extract

section Unwrap

theorem boxed_of_boxedSpace {s : Text} (occurs : boxedSpace.word <:+: s) : boxed.word <:+: s :=
  List.IsInfix.trans (List.prefix_append boxed.word [' ']).isInfix occurs

/-- With a space behind some `\boxed` the braces are not looked at. -/
theorem mathExtract_space (p : Text) {z : Text} (last : ¬boxedSpace.word <:+: z) :
    mathExtract (p ++ boxedSpace.word ++ z) = .ok (z.takeWhile (· ≠ '$')) := by
  have occurs : boxedSpace.word <:+: p ++ boxedSpace.word ++ z := ⟨p, z, rfl⟩
  have again : boxedSpace.word <:+: boxedSpace.word ++ z.takeWhile (· ≠ '$') :=
    (List.prefix_append _ _).isInfix
  rw [mathExtract, lastBoxedOnlyString, if_pos occurs, splitOn_head, splitOn_getLast p last,
    removeBoxed, if_pos again, List.take_left, List.drop_left, beq_self_eq_true]
  rfl

theorem removeBoxed_braces {y : Text}
    (plain : ¬boxedSpace.word <:+: boxed.word ++ braces.left :: (y ++ [braces.right])) :
    removeBoxed (some (boxed.word ++ braces.left :: (y ++ [braces.right]))) = .ok y := by
  have whole : boxed.word ++ braces.left :: (y ++ [braces.right]) = (boxed.word ++ [braces.left]) ++
      (y ++ [braces.right]) := by
    simp
  rw [whole] at plain ⊢
  rw [removeBoxed, if_neg plain]
  simp only [List.take_left, beq_self_eq_true, pyAssert_true]
  rw [← List.append_assoc, List.getLast?_concat, List.dropLast_concat, List.drop_left]
  rfl

theorem prefix_of_removeBoxed {s m : Text} (plain : ¬boxedSpace.word <:+: s)
    (ok : removeBoxed (some s) = .ok m) :
    boxed.word ++ [braces.left] <+: s := by
  rw [removeBoxed, if_neg plain] at ok
  cases opens : s.take (boxed.word ++ [braces.left]).length == boxed.word ++ [braces.left] with
  | true => exact List.prefix_iff_eq_take.mpr (beq_iff_eq.mp opens).symm
  | false =>
    simp only [opens] at ok
    cases ok

end Unwrap

section Agreement

/-- Both extractors return, and the same answer up to blanks at its ends. -/
def Agree (string : Text) : Prop :=
  ∃ m, mathExtract string = .ok m ∧ primeLastBoxedOnlyString string = some (strip m)

def LastBoxed (string x y : Text) : Prop :=
  ∃ p tail, string = p ++ boxed.word ++ tail ∧ ¬boxed.word <:+: tail ∧ Group tail x y

def LastSpaced (string m : Text) : Prop :=
  ∃ p tail, string = p ++ boxedSpace.word ++ tail ∧ ¬boxedSpace.word <:+: tail ∧
    m = tail.takeWhile (· ≠ '$')

theorem boxed_braceFree : braces.left ∉ boxed.word ∧ braces.right ∉ boxed.word := by decide

theorem fbox_braceFree : braces.left ∉ fbox.word ∧ braces.right ∉ fbox.word := by decide

theorem not_agree_of_no_boxed {s : Text} (none : ¬boxed.word <:+: s) : ¬Agree s := by
  rintro ⟨m, ok, -⟩
  have plain : ¬boxedSpace.word <:+: s := fun occurs => none (boxed_of_boxedSpace occurs)
  by_cases framed : fbox.word <:+: s
  · obtain ⟨p, tail, rfl, last⟩ := Marker.exists_last framed
    have chosen := boxIdx_fbox none last
    by_cases group : ∃ x y, Group tail x y
    · obtain ⟨x, y, group⟩ := group
      have found := lastBoxedOnlyString_group fbox_braceFree.1 fbox_braceFree.2 chosen plain group
      obtain ⟨⟨rest, rfl⟩, -, -⟩ := group
      rw [mathExtract, found] at ok
      have inside : fbox.word ++ (x ++ braces.left :: (y ++ [braces.right])) <:+:
          p ++ fbox.word ++ (x ++ braces.left :: (y ++ braces.right :: rest)) := ⟨p, rest, by simp⟩
      have opens := prefix_of_removeBoxed (fun occurs => plain (occurs.trans inside)) ok
      obtain ⟨-, opens⟩ := List.cons_prefix_cons.mp opens
      exact absurd (List.cons_prefix_cons.mp opens).1 (by decide)
    · have found := lastBoxedOnlyString_none fbox_braceFree.1 fbox_braceFree.2 chosen plain
        (fun x y there => group ⟨x, y, there⟩)
      rw [mathExtract, found] at ok
      cases ok
  · rw [mathExtract, lastBoxedOnlyString, if_neg plain, boxIdx_none none framed] at ok
    cases ok

section Braces

variable {p tail x y : Text} (last : ¬boxed.word <:+: tail)
  (plain : ¬boxedSpace.word <:+: p ++ boxed.word ++ tail)
include last plain

theorem mathExtract_eq_removeBoxed (group : Group tail x y) :
    mathExtract (p ++ boxed.word ++ tail) =
      removeBoxed (some (boxed.word ++ (x ++ braces.left :: (y ++ [braces.right])))) ∧
      ¬boxedSpace.word <:+: boxed.word ++ (x ++ braces.left :: (y ++ [braces.right])) := by
  have found := lastBoxedOnlyString_group boxed_braceFree.1 boxed_braceFree.2
    (boxIdx_boxed p last) plain group
  obtain ⟨⟨rest, rfl⟩, -, -⟩ := group
  refine ⟨by rw [mathExtract, found], fun occurs => plain (occurs.trans ?_)⟩
  exact ⟨p, rest, by simp⟩

theorem mathExtract_braces (group : Group tail [] y) :
    mathExtract (p ++ boxed.word ++ tail) = .ok y := by
  obtain ⟨found, within⟩ := mathExtract_eq_removeBoxed last plain group
  rw [found]
  exact removeBoxed_braces within

theorem nil_of_mathExtract {m : Text} (group : Group tail x y)
    (ok : mathExtract (p ++ boxed.word ++ tail) = .ok m) :
    x = [] := by
  obtain ⟨found, within⟩ := mathExtract_eq_removeBoxed last plain group
  rw [found] at ok
  have opens := (List.prefix_append_right_inj _).mp (prefix_of_removeBoxed within ok)
  cases x with
  | nil => rfl
  | cons c x =>
    obtain ⟨rfl, -⟩ := List.cons_prefix_cons.mp opens
    exact absurd List.mem_cons_self group.2.1

end Braces

theorem agree_iff {s : Text} :
    Agree s ↔ ∃ x y, LastBoxed s x y ∧
      ((¬boxedSpace.word <:+: s ∧ x = []) ∨ ∃ m, LastSpaced s m ∧ strip m = strip y) := by
  constructor
  · intro agree
    obtain ⟨p, tail, rfl, last⟩ :=
      Marker.exists_last (Classical.not_not.mp (fun none => not_agree_of_no_boxed none agree))
    obtain ⟨m, ok, same⟩ := agree
    have chosen := boxIdx_boxed p last
    obtain ⟨x, y, group⟩ : ∃ x y, Group tail x y := by
      by_contra none
      rw [primeLastBoxedOnlyString_none boxed_braceFree.1 boxed_braceFree.2 chosen
        (fun x y there => none ⟨x, y, there⟩)] at same
      cases same
    rw [primeLastBoxedOnlyString_group boxed_braceFree.1 boxed_braceFree.2 chosen group] at same
    refine ⟨x, y, ⟨p, tail, rfl, last, group⟩, ?_⟩
    by_cases spaced : boxedSpace.word <:+: p ++ boxed.word ++ tail
    · obtain ⟨q, z, whole, final⟩ := Marker.exists_last spaced
      rw [whole, mathExtract_space q final] at ok
      exact .inr ⟨m, ⟨q, z, whole, final, (Except.ok.inj ok).symm⟩, (Option.some.inj same).symm⟩
    · exact .inl ⟨spaced, nil_of_mathExtract last spaced group ok⟩
  · rintro ⟨x, y, ⟨p, tail, rfl, last, group⟩, way⟩
    have prime := primeLastBoxedOnlyString_group boxed_braceFree.1 boxed_braceFree.2
      (boxIdx_boxed p last) group
    rcases way with ⟨plain, rfl⟩ | ⟨m, ⟨q, z, whole, final, rfl⟩, same⟩
    · exact ⟨y, mathExtract_braces last plain group, prime⟩
    · refine ⟨z.takeWhile (· ≠ '$'), ?_, by rw [prime, same]⟩
      rw [whole, mathExtract_space q final]

end Agreement

section Answers

/-- Both extractors give the answer `a`, the second one without blanks at its ends. -/
def Extracts (string a : Text) : Prop :=
  mathExtract string = .ok a ∧ primeLastBoxedOnlyString string = some (strip a)

variable {P A Q : Text}

theorem boxed_notMem_tail (noneA : ¬boxed.word <:+: A) (noneQ : ¬boxed.word <:+: Q) :
    ¬boxed.word <:+: braces.left :: (A ++ braces.right :: Q) := by
  intro occurs
  rcases List.infix_cons_iff.mp occurs with atLeft | behind
  · exact absurd (List.cons_prefix_cons.mp atLeft).1 (by decide)
  · rcases (Marker.infix_append_iff A Q (by decide)).mp behind with inA | later
    · exact noneA inA
    · rcases List.infix_cons_iff.mp later with atRight | inQ
      · exact absurd (List.cons_prefix_cons.mp atRight).1 (by decide)
      · exact noneQ inQ

theorem boxedSpace_before_box {tail : Text}
    (occurs : boxedSpace.word <:+: P ++ boxed.word ++ braces.left :: tail)
    (none : ¬boxed.word <:+: braces.left :: tail) : boxedSpace.word <:+: P := by
  rw [List.append_assoc] at occurs
  rcases (Marker.infix_append_iff P ("boxed".toList ++ braces.left :: tail) (by decide)).mp
    occurs with before | within
  · exact before
  · rcases List.infix_cons_iff.mp within with ⟨rest, here⟩ | later
    · cases here
    · exact absurd (boxed_of_boxedSpace (Marker.infix_of_notMem later (by decide))) none

theorem group_of_balanced (balanced : braces.Balanced A) :
    Group (braces.left :: (A ++ braces.right :: Q)) [] A :=
  ⟨⟨Q, rfl⟩, List.not_mem_nil, Brackets.closes_of_balanced balanced⟩

theorem takeWhile_eq_iff {p₂ tail : Text} (none : ¬boxed.word <:+: A) :
    (p₂ ++ boxed.word ++ tail).takeWhile (· ≠ '$') = A ↔ '$' ∉ A ∧ ∃ p₃, p₂ = A ++ '$' :: p₃ := by
  have upTo : ∀ u v : Text, '$' ∉ u → (u ++ '$' :: v).takeWhile (· ≠ '$') = u := by
    intro u v absent
    rw [List.takeWhile_append_of_pos]
    · simp
    · intro c inside
      rw [decide_eq_true_iff]
      rintro rfl
      exact absent inside
  constructor
  · intro same
    by_cases dollar : '$' ∈ p₂
    · obtain ⟨u, v, rfl, absent⟩ := List.eq_append_cons_of_mem dollar
      rw [List.append_assoc, List.append_assoc, List.cons_append, upTo u _ absent] at same
      subst same
      exact ⟨absent, v, rfl⟩
    · have through : ∀ c ∈ p₂ ++ boxed.word, decide (c ≠ '$') = true := by
        intro c inside
        rw [decide_eq_true_iff]
        rintro rfl
        rcases List.mem_append.mp inside with before | command
        · exact dollar before
        · exact absurd command (by decide)
      rw [List.takeWhile_append_of_pos through] at same
      exact absurd ⟨p₂, _, same⟩ none
  · rintro ⟨absent, p₃, rfl⟩
    rw [List.append_assoc, List.append_assoc, List.cons_append, upTo A _ absent]

theorem boxed_strip {s : Text} (occurs : boxed.word <:+: s) : boxed.word <:+: strip s := by
  have solid : boxed.word.all (fun c => !isSpace c) = true := by decide
  refine infix_trim (List.cons_ne_nil _ _) (fun c inside => ?_) occurs
  simpa using List.all_eq_true.mp solid c inside

/-- The last `\boxed` is never inside the answer that is returned. -/
theorem not_extracts_of_nested {string : Text} (nested : boxed.word <:+: A) :
    ¬Extracts string A := by
  rintro ⟨ok, same⟩
  obtain ⟨x, y, ⟨p, tail, rfl, last, group⟩, -⟩ := agree_iff.mp ⟨A, ok, same⟩
  rw [primeLastBoxedOnlyString_group boxed_braceFree.1 boxed_braceFree.2 (boxIdx_boxed p last)
    group] at same
  have inside : boxed.word <:+: y := by
    have within := boxed_strip nested
    rw [← Option.some.inj same] at within
    exact within.trans (trim_inside y)
  obtain ⟨⟨rest, rfl⟩, -, -⟩ := group
  exact last (inside.trans ⟨x ++ [braces.left], braces.right :: rest, by simp⟩)

theorem extracts_boxed_iff (balanced : braces.Balanced A) (noneQ : ¬boxed.word <:+: Q) :
    Extracts (P ++ boxed.word ++ braces.left :: (A ++ braces.right :: Q)) A ↔
      ¬boxed.word <:+: A ∧ ∀ p₁ p₂, P = p₁ ++ boxedSpace.word ++ p₂ → ¬boxedSpace.word <:+: p₂ →
        '$' ∉ A ∧ ∃ p₃, p₂ = A ++ '$' :: p₃ := by
  by_cases nested : boxed.word <:+: A
  · exact iff_of_false (not_extracts_of_nested nested) (fun condition => condition.1 nested)
  · have last := boxed_notMem_tail nested noneQ
    have prime := primeLastBoxedOnlyString_group boxed_braceFree.1 boxed_braceFree.2
      (boxIdx_boxed P last)
      (group_of_balanced balanced)
    have spaced : ∀ p₁ p₂, P = p₁ ++ boxedSpace.word ++ p₂ → ¬boxedSpace.word <:+: p₂ →
        mathExtract (P ++ boxed.word ++ braces.left :: (A ++ braces.right :: Q)) =
          .ok ((p₂ ++ boxed.word ++ braces.left :: (A ++ braces.right :: Q)).takeWhile
            (· ≠ '$')) := by
      rintro p₁ p₂ rfl final
      rw [← mathExtract_space p₁ (fun occurs => final (boxedSpace_before_box occurs last))]
      simp only [List.append_assoc]
    constructor
    · rintro ⟨ok, -⟩
      refine ⟨nested, fun p₁ p₂ whole final => ?_⟩
      rw [spaced p₁ p₂ whole final] at ok
      exact (takeWhile_eq_iff nested).mp (Except.ok.inj ok)
    · rintro ⟨-, condition⟩
      refine ⟨?_, prime⟩
      by_cases occurs : boxedSpace.word <:+: P
      · obtain ⟨p₁, p₂, whole, final⟩ := Marker.exists_last occurs
        rw [spaced p₁ p₂ whole final, (takeWhile_eq_iff nested).mpr (condition p₁ p₂ whole final)]
      · exact mathExtract_braces last (fun anywhere => occurs (boxedSpace_before_box anywhere last))
          (group_of_balanced balanced)

/-- A box with an answer is read back unless the answer holds another box or a `\boxed` with a space
stands before it. On any text, also one whose last box is an `\fbox`, the two agree only on its last
`\boxed`. -/
theorem extractors_iff (balanced : braces.Balanced A) (noBoxed : ¬boxed.word <:+: Q) :
    (Extracts (P ++ boxed.word ++ braces.left :: (A ++ braces.right :: Q)) A ↔
      ¬boxed.word <:+: A ∧ ∀ p₁ p₂, P = p₁ ++ boxedSpace.word ++ p₂ → ¬boxedSpace.word <:+: p₂ →
        '$' ∉ A ∧ ∃ p₃, p₂ = A ++ '$' :: p₃) ∧
    ∀ s, Agree s ↔ ∃ x y, LastBoxed s x y ∧
      ((¬boxedSpace.word <:+: s ∧ x = []) ∨ ∃ m, LastSpaced s m ∧ strip m = strip y) :=
  ⟨extracts_boxed_iff balanced noBoxed, fun _ => agree_iff⟩

theorem extractors_two_boxes :
    Extracts ("\\boxed\x7b7\x7d or \\boxed\x7b1+\x7b2\x7d\x7d.".toList) "1+\x7b2\x7d".toList ∧
    Agree ("\\boxed\x7b7\x7d or \\fbox\x7b1+\x7b2\x7d\x7d.".toList) := by
  have both := @extractors_iff "\\boxed\x7b7\x7d or ".toList "1+\x7b2\x7d".toList ['.']
    (by decide) (by decide)
  constructor
  · refine both.1.mpr ⟨by decide, fun p₁ p₂ whole => ?_⟩
    exact absurd ⟨p₁, p₂,
      whole.symm⟩ (by decide : ¬boxedSpace.word <:+: "\\boxed\x7b7\x7d or ".toList)
  · refine (both.2 _).mpr ⟨[], ['7'], ⟨[], _, rfl, by decide, ?_⟩, .inl ⟨by decide, rfl⟩⟩
    exact @group_of_balanced ['7'] " or \\fbox\x7b1+\x7b2\x7d\x7d.".toList (by decide)

/-- A `\boxed` with a space far before the box hides it, and a plain `\fbox` makes one extractor
raise. -/
theorem extractors_diverge :
    braces.Balanced "1".toList ∧
    mathExtract ("$\\boxed 7$ so ".toList ++ boxed.word ++
      braces.left :: ("1".toList ++ [braces.right])) = .ok "7".toList ∧
    ¬Extracts ("$\\boxed 7$ so ".toList ++ boxed.word ++
      braces.left :: ("1".toList ++ [braces.right])) "1".toList ∧
    mathExtract (fbox.word ++ braces.left :: ("1".toList ++ [braces.right])) =
      .error (.assertion "") ∧
    primeLastBoxedOnlyString (fbox.word ++ braces.left :: ("1".toList ++ [braces.right])) =
      some "1".toList ∧
    ¬Agree (fbox.word ++ braces.left :: ("1".toList ++ [braces.right])) := by
  have hidden : mathExtract
    ("$\\boxed 7$ so ".toList ++ boxed.word ++ braces.left :: ("1".toList ++ [braces.right])) =
      .ok "7".toList := by decide +kernel
  have raises : mathExtract (fbox.word ++ braces.left :: ("1".toList ++ [braces.right])) =
      .error (.assertion "") := by
    decide +kernel
  refine ⟨by decide, hidden, ?_, raises, by decide +kernel, ?_⟩
  · rintro ⟨ok, -⟩
    rw [hidden] at ok
    exact absurd (Except.ok.inj ok) (by decide)
  · rintro ⟨m, ok, -⟩
    rw [raises] at ok
    cases ok

end Answers

end Verl.Boxed
