import Mathlib.Data.List.DropRight
import Mathlib.Data.List.Infix
import Verl.Base.Text

/-! `str.strip` and the few other methods of `str` that the reward functions use. -/
namespace Verl

section Trim

variable {α : Type u} (p : α → Bool)

/-- The list without the elements at both ends that satisfy `p`. -/
def trim (s : List α) : List α := (s.dropWhile p).rdropWhile p

variable {p}

theorem dropWhile_append_of_all {a b : List α} (all : ∀ x ∈ a, p x = true) :
    (a ++ b).dropWhile p = b.dropWhile p := by
  induction a with
  | nil => rfl
  | cons x a ih =>
    rw [List.cons_append, List.dropWhile_cons_of_pos (all x List.mem_cons_self)]
    exact ih (fun y there => all y (List.mem_cons_of_mem x there))

theorem trim_surround {a x b : List α} (before : ∀ c ∈ a, p c = true) (after : ∀ c ∈ b, p c = true)
    (nonempty : x ≠ [])
    (first : p (x.head nonempty) = false) (last : p (x.getLast nonempty) = false) :
    trim p (a ++ (x ++ b)) = x := by
  have left : (x ++ b).dropWhile p = x ++ b := by
    obtain ⟨c, x, rfl⟩ := List.exists_cons_of_ne_nil nonempty
    exact List.dropWhile_cons_of_neg (by simpa using first)
  have right : x.reverse.dropWhile p = x.reverse := by
    obtain ⟨c, y, back⟩ := List.exists_cons_of_ne_nil (List.reverse_ne_nil_iff.mpr nonempty)
    have same : x.getLast nonempty = c := by
      rw [← List.head_reverse (by simpa using nonempty)]
      simp [back]
    rw [back]
    exact List.dropWhile_cons_of_neg (by rw [← same, last]; simp)
  rw [trim, dropWhile_append_of_all before, left, List.rdropWhile, List.reverse_append,
    dropWhile_append_of_all (by simpa using after), right, List.reverse_reverse]

theorem trim_of_none {s : List α} (solid : ∀ c ∈ s, p c = false) : trim p s = s := by
  have left : s.dropWhile p = s := List.dropWhile_eq_self_iff.mpr (fun _ => by simp [solid])
  rw [trim, left, List.rdropWhile_eq_self_iff]
  intro nonempty
  simp [solid _ (List.getLast_mem nonempty)]

theorem trim_inside (s : List α) : trim p s <:+: s :=
  (List.rdropWhile_prefix p _).isInfix.trans (List.dropWhile_suffix p).isInfix

theorem infix_dropWhile {w s : List α} (nonempty : w ≠ []) (solid : ∀ c ∈ w, p c = false)
    (occurs : w <:+: s) :
    w <:+: s.dropWhile p := by
  induction s with
  | nil => exact absurd (List.infix_nil.mp occurs) nonempty
  | cons x s ih =>
    cases blank : p x with
    | false => rwa [List.dropWhile_cons_of_neg (by simp [blank])]
    | true =>
      rw [List.dropWhile_cons_of_pos blank]
      rcases List.infix_cons_iff.mp occurs with ⟨rest, here⟩ | later
      · obtain ⟨c, w, rfl⟩ := List.exists_cons_of_ne_nil nonempty
        obtain ⟨rfl, -⟩ := List.cons.inj here
        rw [solid c List.mem_cons_self] at blank
        cases blank
      · exact ih later

theorem infix_trim {w s : List α} (nonempty : w ≠ []) (solid : ∀ c ∈ w, p c = false)
    (occurs : w <:+: s) :
    w <:+: trim p s := by
  have left := infix_dropWhile nonempty solid occurs
  have right := infix_dropWhile (by simpa using nonempty) (by simpa using solid)
    (List.reverse_infix.mpr left)
  rw [← List.reverse_infix] at right
  simpa [trim, List.rdropWhile] using right

end Trim

namespace Text

def isSpace (c : Char) : Bool :=
  let n := c.toNat
  (9 ≤ n && n ≤ 13) || (28 ≤ n && n ≤ 32) || n == 0x85 || n == 0xa0 || n == 0x1680 ||
    (0x2000 ≤ n && n ≤ 0x200a) ||
    n == 0x2028 || n == 0x2029 || n == 0x202f || n == 0x205f || n == 0x3000

def strip (s : Text) : Text := trim isSpace s

def joinLines (lines : List Text) : Text := List.intercalate ['\n'] lines

end Text

end Verl
