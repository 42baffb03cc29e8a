import Mathlib.Data.BitVec
import Mathlib.Data.List.Forall2
import Verl.Base.Text

/-! C programs that may exit with a message, and the functions of the C library on strings that
the modelled C code calls. -/
namespace Verl

abbrev Exits := Except Text

namespace Exits

variable {α β : Type}

theorem bind_iff {x : Exits α} {f : α → Exits β} {b : β} :
    (x >>= f) = .ok b ↔ ∃ a, x = .ok a ∧ f a = .ok b := by
  cases x with
  | error message => simp [bind, Except.bind]
  | ok a => simp [bind, Except.bind]

@[simp] theorem ok_bind (a : α) (f : α → Exits β) : ((.ok a : Exits α) >>= f) = f a := rfl

theorem map_iff {x : Exits α} {f : α → β} {b : β} : f <$> x = .ok b ↔ ∃ a, x = .ok a ∧ f a = b := by
  cases x with
  | error message => simp [Functor.map, Except.map]
  | ok a => simp [Functor.map, Except.map]

theorem pure_iff {a b : α} : (pure a : Exits α) = .ok b ↔ a = b := by
  rw [show (pure a : Exits α) = .ok a from rfl, Except.ok.injEq]

theorem mapM_iff {f : α → Exits β} {xs : List α} {ys : List β} :
    xs.mapM f = .ok ys ↔ List.Forall₂ (fun x y => f x = .ok y) xs ys := by
  induction xs generalizing ys with
  | nil =>
    rw [List.mapM_nil, pure_iff, List.forall₂_nil_left_iff]
    exact eq_comm
  | cons x xs ih =>
    simp only [List.mapM_cons, bind_iff, pure_iff, List.forall₂_cons_left_iff, ih]
    constructor
    · rintro ⟨y, head, rest, tail, rfl⟩
      exact ⟨y, rest, head, tail, rfl⟩
    · rintro ⟨y, rest, head, tail, rfl⟩
      exact ⟨y, head, rest, tail, rfl⟩

theorem mapM_congr {f g : α → Exits β} {xs : List α} (each : ∀ x ∈ xs, f x = g x) :
    xs.mapM f = xs.mapM g := by
  induction xs with
  | nil => rfl
  | cons x xs ih =>
    rw [List.mapM_cons, List.mapM_cons, each x List.mem_cons_self, ih fun y later =>
      each y (List.mem_cons_of_mem x later)]

theorem foldlM_foldl {f : β → α → Exits β} {g : β → α → β} (each : ∀ b a, f b a = .ok (g b a))
    (xs : List α) (b : β) :
    xs.foldlM f b = .ok (xs.foldl g b) := by
  induction xs generalizing b with
  | nil => rfl
  | cons x xs ih => rw [List.foldlM_cons, each, ok_bind, ih, List.foldl_cons]

end Exits

namespace CText

def toInt (x : Int) : Int := (BitVec.ofInt 32 x).toInt

def intMax : Int := 2147483647

def strtok (separator : Char) (s : Text) : List Text :=
  (s.splitOn separator).filter (fun token => !token.isEmpty)

def digit (c : Char) : Nat :=
  if '0' ≤ c ∧ c ≤ '9' then c.toNat - '0'.toNat
  else if 'a' ≤ c ∧ c ≤ 'z' then c.toNat - 'a'.toNat + 10
  else if 'A' ≤ c ∧ c ≤ 'Z' then c.toNat - 'A'.toNat + 10
  else 36

def isSpace (c : Char) : Bool := c == ' ' || (9 ≤ c.toNat && c.toNat ≤ 13)

/-- The base that the prefix of a number asks for, and what stands behind the prefix. -/
def numberBase : Text → Nat × Text
  | '0' :: x :: d :: rest =>
    if (x = 'x' ∨ x = 'X') ∧ digit d < 16 then (16, d :: rest) else (8, '0' :: x :: d :: rest)
  | '0' :: rest => (8, '0' :: rest)
  | s => (10, s)

def strtol (s : Text) : Int :=
  let s := s.dropWhile isSpace
  let negative := s.head? = some '-'
  let (base, digits) := numberBase (if negative ∨ s.head? = some '+' then s.tail else s)
  let n : Nat := (digits.takeWhile (fun c => digit c < base)).foldl (fun n c =>
    n * base + digit c) 0
  if negative then max (-(n : Int)) (-(2 ^ 63)) else min (n : Int) (2 ^ 63 - 1)

def caseEqual (a b : Text) : Bool := a.map Char.toLower == b.map Char.toLower

def extend (separator : Char) (list : Option Text) (item : Text) : Option Text :=
  match list with
  | none => some item
  | some list => some (list ++ separator :: item)

section Tokens

variable {separator : Char}

def IsToken (separator : Char) (item : Text) : Prop := item ≠ [] ∧ separator ∉ item

theorem strtok_intercalate {items : List Text} (some : items ≠ [])
    (tokens : ∀ item ∈ items, IsToken separator item) :
    strtok separator (List.intercalate [separator] items) = items := by
  rw [strtok, List.splitOn_intercalate separator (fun item member => (tokens item member).2) some,
    List.filter_eq_self]
  intro item member
  simp [(tokens item member).1]

theorem not_mem_of_mem_splitOn {s piece : Text} (member : piece ∈ s.splitOn separator) :
    separator ∉ piece := by
  induction s generalizing piece with
  | nil =>
    rw [List.mem_singleton.mp member]
    exact List.not_mem_nil
  | cons c s ih =>
    obtain ⟨head, tail, pieces⟩ := List.exists_cons_of_ne_nil (List.splitOn_ne_nil separator s)
    rw [List.splitOn_cons_eq_if_modifyHead, pieces] at member
    rw [pieces] at ih
    split at member
    · rcases List.mem_cons.mp member with rfl | later
      · exact List.not_mem_nil
      · exact ih later
    · rename_i other
      rcases List.mem_cons.mp member with rfl | later
      · rw [List.mem_cons, not_or]
        exact ⟨fun same => other (by rw [same, beq_self_eq_true]), ih List.mem_cons_self⟩
      · exact ih (List.mem_cons_of_mem head later)

theorem isToken_of_mem_strtok {s item : Text} (member : item ∈ strtok separator s) :
    IsToken separator item := by
  rw [strtok, List.mem_filter] at member
  exact ⟨by simpa using member.2, not_mem_of_mem_splitOn member.1⟩

theorem intercalate_concat (items : List Text) (item : Text) (some : items ≠ []) :
    List.intercalate [separator] (items ++ [item]) = List.intercalate [separator] items ++
      separator :: item := by
  induction items with
  | nil => exact absurd rfl some
  | cons first items ih =>
    cases items with
    | nil => simp [List.intercalate]
    | cons second items =>
      have rest := ih (by simp)
      simp only [List.intercalate, List.cons_append, List.intersperse_cons_cons,
        List.flatten_cons] at rest ⊢
      rw [rest]
      simp

theorem foldl_extend (items : List Text) :
    items.foldl (extend separator) none = if items = [] then none
      else some (List.intercalate [separator] items) := by
  induction items using List.reverseRecOn with
  | nil => rfl
  | append_singleton items item ih =>
    have grown : items ++ [item] ≠ [] := by simp
    rw [List.foldl_concat, if_neg grown, ih]
    cases items with
    | nil => simp [extend, List.intercalate]
    | cons first items => rw [if_neg (by simp), extend, intercalate_concat _ _ (by simp)]

end Tokens

end CText

end Verl
