import Mathlib.Data.List.TakeWhile
import Verl.Base.Regex

/-! `rfind` and `split` of a text, and which occurrence of a word they tell apart: for a marker the
last occurrence is unique, it is where `rfind` points and what stands behind it is the last
piece. -/
namespace Verl

variable {α : Type u} {m : Marker α}

section Last

theorem Marker.exists_last {s : List α} (occurs : m.word <:+: s) :
    ∃ a b, s = a ++ m.word ++ b ∧ ¬m.word <:+: b := by
  induction h : s.length using Nat.strongRecOn generalizing s with
  | ind len ih =>
    subst h
    obtain ⟨a, b, rfl, -⟩ := Marker.exists_first occurs
    by_cases again : m.word <:+: b
    · obtain ⟨a', b', rfl, last⟩ := ih b.length (by simp [Marker.word]; omega) again rfl
      exact ⟨a ++ m.word ++ a', b', by simp only [List.append_assoc], last⟩
    · exact ⟨a, b, rfl, again⟩

theorem Marker.tail_of_later {t b b' : List α} (same : m.word ++ b = t ++ (m.word ++ b'))
    (last : ¬m.word <:+: b) :
    t = [] := by
  cases t with
  | nil => rfl
  | cons x t =>
    obtain ⟨rfl, onward⟩ := List.cons.inj same
    have occurs : m.word <:+: m.tail ++ b := ⟨t, b', by rw [List.append_assoc]; exact onward.symm⟩
    exact absurd (Marker.infix_of_notMem occurs m.fresh) last

theorem Marker.last_unique {a a' b b' : List α} (same : a ++ m.word ++ b = a' ++ m.word ++ b')
    (last : ¬m.word <:+: b) (last' : ¬m.word <:+: b') : a = a' ∧ b = b' := by
  rw [List.append_assoc, List.append_assoc] at same
  rcases List.append_eq_append_iff.mp same with ⟨t, rfl, rest⟩ | ⟨t, rfl, rest⟩
  · obtain rfl := Marker.tail_of_later rest last
    exact ⟨(List.append_nil a).symm, List.append_cancel_left rest⟩
  · obtain rfl := Marker.tail_of_later rest last'
    exact ⟨List.append_nil a', (List.append_cancel_left rest).symm⟩

end Last

variable [DecidableEq α]

section Rfind

def rfind (w : List α) : List α → Option Nat
  | [] => if w = [] then some 0 else none
  | x :: s =>
    match rfind w s with
    | some i => some (i + 1)
    | none => if w <+: x :: s then some 0 else none

theorem rfind_none {s : List α} (absent : ¬m.word <:+: s) : rfind m.word s = none := by
  induction s with
  | nil => rfl
  | cons x s ih =>
    have notHere : ¬m.word <+: x :: s := fun here => absent here.isInfix
    simp only [rfind, ih (fun later => absent (List.infix_cons later)), if_neg notHere]

theorem rfind_last (a : List α) {b : List α} (last : ¬m.word <:+: b) :
    rfind m.word (a ++ m.word ++ b) = some a.length := by
  induction a with
  | nil =>
    have behind : rfind m.word (m.tail ++ b) = none :=
      rfind_none (fun occurs => last (Marker.infix_of_notMem occurs m.fresh))
    have here : m.word <+: m.head :: (m.tail ++ b) := List.prefix_append m.word b
    change rfind m.word (m.head :: (m.tail ++ b)) = some 0
    simp only [rfind, behind, if_pos here]
  | cons x a ih => simp only [List.cons_append, rfind, ih, List.length_cons]

end Rfind

section Split

def splitOnFrom (w : List α) : Nat → List α → List (List α)
  | 0, s => [s]
  | fuel + 1, s =>
    match s.dropInfix? w with
    | some (piece, rest) => piece :: splitOnFrom w fuel rest
    | none => [s]

/-- `s.split(w)` for a separator that is not empty. -/
def splitOn (w s : List α) : List (List α) := splitOnFrom w (s.length + 1) s

theorem splitOnFrom_ne_nil (w : List α) (fuel : Nat) (s : List α) : splitOnFrom w fuel s ≠ [] := by
  cases fuel with
  | zero => exact List.cons_ne_nil _ _
  | succ fuel =>
    rw [splitOnFrom]
    split <;> exact List.cons_ne_nil _ _

theorem splitOn_ne_nil (w s : List α) : splitOn w s ≠ [] := splitOnFrom_ne_nil w (s.length + 1) s

theorem eq_append_of_dropInfix? {w s a b : List α} (found : s.dropInfix? w = some (a, b)) :
    s = a ++ w ++ b := by
  obtain ⟨⟨i, same, equal⟩, -⟩ := List.dropInfix?_eq_some_iff.mp found
  rw [same, beq_iff_eq.mp equal]

theorem dropInfix?_first {a : List α} (b : List α) (first : ¬m.word <:+: a) :
    (a ++ m.word ++ b).dropInfix? m.word = some (a, b) := by
  rw [List.dropInfix?_eq_some_iff]
  refine ⟨⟨m.word, rfl, beq_self_eq_true _⟩, ?_⟩
  intro a' i b' other equal
  obtain rfl := beq_iff_eq.mp equal
  by_contra shorter
  rw [List.append_assoc, List.append_assoc] at other
  rcases List.append_eq_append_iff.mp other with ⟨t, rfl, -⟩ | ⟨t, rfl, rest⟩
  · simp only [List.length_append] at shorter
    omega
  · have started : t ≠ [] := by
      rintro rfl
      simp at shorter
    have here : m.word <+: t ++ m.head :: (m.tail ++ b) := ⟨b', rest⟩
    have inside := (Marker.prefix_of_append here started m.fresh).isInfix
    exact first (inside.trans (List.suffix_append a' t).isInfix)

theorem dropInfix?_go_ne_none {w s : List α} (occurs : w <:+: s) (acc : List α) :
    List.dropInfix?.go w s acc ≠ none := by
  induction s generalizing acc with
  | nil => simp [List.dropInfix?.go, List.infix_nil.mp occurs]
  | cons x s ih =>
    rw [List.dropInfix?.go]
    cases here : (x :: s).dropPrefix? w with
    | some rest => exact Option.some_ne_none _
    | none =>
      refine ih ((List.infix_cons_iff.mp occurs).resolve_left ?_) (x :: acc)
      rintro ⟨rest, same⟩
      have found := List.dropPrefix?_append_of_beq rest (beq_self_eq_true w)
      rw [same, here] at found
      cases found

theorem dropInfix?_none_iff {w s : List α} : s.dropInfix? w = none ↔ ¬w <:+: s := by
  constructor
  · exact fun none occurs => dropInfix?_go_ne_none occurs [] none
  · intro absent
    cases found : s.dropInfix? w with
    | none => rfl
    | some cut => exact absurd ⟨cut.1, cut.2, (eq_append_of_dropInfix? found).symm⟩ absent

/-- The last piece is the whole text or stands behind an occurrence, and holds none. -/
theorem splitOnFrom_getLast {fuel : Nat} {s : List α} (enough : s.length < fuel) :
    ∃ z, (splitOnFrom m.word fuel s).getLast? = some z ∧ ¬m.word <:+: z ∧
      (z = s ∨ ∃ a, s = a ++ m.word ++ z) := by
  induction fuel generalizing s with
  | zero => exact absurd enough (Nat.not_lt_zero _)
  | succ fuel ih =>
    cases found : s.dropInfix? m.word with
    | none =>
      refine ⟨s, ?_, dropInfix?_none_iff.mp found, .inl rfl⟩
      simp only [splitOnFrom, found, List.getLast?_singleton]
    | some cut =>
      obtain ⟨piece, rest⟩ := cut
      obtain rfl := eq_append_of_dropInfix? found
      have shorter : rest.length < fuel := by
        simp only [List.length_append, Marker.word, List.length_cons] at enough
        omega
      obtain ⟨z, last, none, place⟩ := ih shorter
      refine ⟨z, ?_, none, .inr ?_⟩
      · simp only [splitOnFrom, found]
        rw [List.getLast?_cons, last, Option.getD_some]
      · rcases place with rfl | ⟨a, rfl⟩
        · exact ⟨piece, rfl⟩
        · exact ⟨piece ++ m.word ++ a, by simp only [List.append_assoc]⟩

theorem splitOn_getLast (a : List α) {b : List α} (last : ¬m.word <:+: b) :
    (splitOn m.word (a ++ m.word ++ b)).getLast (splitOn_ne_nil _ _) = b := by
  obtain ⟨z, found, none, place⟩ :=
    @splitOnFrom_getLast α m _ _ (a ++ m.word ++ b) (Nat.lt_succ_self _)
  have value : (splitOn m.word (a ++ m.word ++ b)).getLast (splitOn_ne_nil _ _) = z := by
    rw [List.getLast?_eq_some_getLast (splitOnFrom_ne_nil _ _ _)] at found
    exact Option.some.inj found
  rw [value]
  rcases place with rfl | ⟨a', same⟩
  · exact absurd ⟨a, b, rfl⟩ none
  · exact ((Marker.last_unique same last none).2).symm

theorem splitOn_head (c : α) (s : List α) :
    (splitOn [c] s).head (splitOn_ne_nil _ _) = s.takeWhile (· ≠ c) := by
  let m : Marker α := ⟨c, [], List.not_mem_nil⟩
  by_cases occurs : m.word <:+: s
  · obtain ⟨a, b, rfl, first⟩ := Marker.exists_first occurs
    have before : ∀ x ∈ a, decide (x ≠ c) = true := by
      intro x inside
      rw [decide_eq_true_iff]
      rintro rfl
      exact first ((List.singleton_infix_iff _ _).mpr inside)
    have found : (a ++ [c] ++ b).dropInfix? [c] = some (a, b) := dropInfix?_first b first
    change (splitOn [c] (a ++ [c] ++ b)).head _ = (a ++ [c] ++ b).takeWhile (· ≠ c)
    simp only [splitOn, splitOnFrom, found, List.head_cons]
    rw [List.append_assoc, List.takeWhile_append_of_pos before]
    simp
  · have found : s.dropInfix? [c] = none := dropInfix?_none_iff.mpr occurs
    simp only [splitOn, splitOnFrom, found, List.head_cons]
    refine (List.takeWhile_eq_self_iff.mpr ?_).symm
    intro x inside
    rw [decide_eq_true_iff]
    rintro rfl
    exact occurs ((List.singleton_infix_iff _ _).mpr inside)

end Split

end Verl
