import Mathlib.Algebra.Order.Ring.Int
import Mathlib.Tactic.Linarith
import Verl.Base.Search

/-! `str.replace`, one pass over the pieces of `str.split`, and additive weights of texts: putting a
lighter word for a heavier one leaves a text alone or makes it lighter. -/
namespace Verl

variable {α : Type u}

section Join

theorem intercalate_cons (sep piece : List α) {pieces : List (List α)} (more : pieces ≠ []) :
    List.intercalate sep (piece :: pieces) = piece ++ sep ++ List.intercalate sep pieces := by
  obtain ⟨next, rest, rfl⟩ := List.exists_cons_of_ne_nil more
  exact List.intercalate_cons_cons

theorem mem_intercalate {c : α} {sep : List α} {pieces : List (List α)}
    (member : c ∈ List.intercalate sep pieces) :
    c ∈ sep ∨ ∃ piece ∈ pieces, c ∈ piece := by
  induction pieces with
  | nil => cases member
  | cons piece pieces ih =>
    by_cases more : pieces = []
    · subst more
      rw [List.intercalate_singleton] at member
      exact .inr ⟨piece, List.mem_cons_self, member⟩
    · rw [intercalate_cons sep piece more, List.mem_append, List.mem_append] at member
      rcases member with (here | between) | later
      · exact .inr ⟨piece, List.mem_cons_self, here⟩
      · exact .inl between
      · rcases ih later with between | ⟨other, there, inside⟩
        · exact .inl between
        · exact .inr ⟨other, List.mem_cons_of_mem piece there, inside⟩

theorem mem_intercalate_of_mem {c : α} {sep piece : List α} {pieces : List (List α)}
    (there : piece ∈ pieces) (inside : c ∈ piece) :
    c ∈ List.intercalate sep pieces := by
  induction pieces with
  | nil => cases there
  | cons first pieces ih =>
    by_cases more : pieces = []
    · subst more
      rw [List.intercalate_singleton, ← List.mem_singleton.mp there]
      exact inside
    · rw [intercalate_cons sep first more, List.mem_append, List.mem_append]
      rcases List.mem_cons.mp there with rfl | later
      · exact .inl (.inl inside)
      · exact .inr (ih later)

end Join

section Weight

variable (w : α → Int)

def weight (s : List α) : Int := (s.map w).sum

@[simp] theorem weight_nil : weight w [] = 0 := rfl

@[simp] theorem weight_cons (c : α) (s : List α) :
    weight w (c :: s) = w c + weight w s := by simp [weight]

@[simp] theorem weight_append (a b : List α) :
    weight w (a ++ b) = weight w a + weight w b := by simp [weight]

theorem weight_intercalate (sep other : List α) {pieces : List (List α)} (some : pieces ≠ []) :
    weight w (List.intercalate sep pieces) + (pieces.length - 1 : Int) * weight w other =
      weight w (List.intercalate other pieces) + (pieces.length - 1 : Int) * weight w sep := by
  induction pieces with
  | nil => exact absurd rfl some
  | cons piece pieces ih =>
    by_cases more : pieces = []
    · subst more
      simp
    · have later := ih more
      simp only [intercalate_cons _ piece more, weight_append, List.length_cons,
        Nat.cast_add, Nat.cast_one, add_sub_cancel_right]
      rw [sub_mul, sub_mul, one_mul, one_mul] at later
      linarith

end Weight

variable [DecidableEq α]

section Pieces

theorem splitOnFrom_of_absent {w s : List α} (absent : ¬w <:+: s) (fuel : Nat) :
    splitOnFrom w fuel s = [s] := by
  cases fuel with
  | zero => rfl
  | succ fuel => simp only [splitOnFrom, dropInfix?_none_iff.mpr absent]

theorem splitOn_of_absent {w s : List α} (absent : ¬w <:+: s) : splitOn w s = [s] :=
  splitOnFrom_of_absent absent _

theorem intercalate_splitOnFrom (w : List α) (fuel : Nat) (s : List α) :
    List.intercalate w (splitOnFrom w fuel s) = s := by
  induction fuel generalizing s with
  | zero => exact List.intercalate_singleton
  | succ fuel ih =>
    rw [splitOnFrom]
    cases found : s.dropInfix? w with
    | none => exact List.intercalate_singleton
    | some cut =>
      obtain ⟨piece, rest⟩ := cut
      simp only
      rw [intercalate_cons w piece (splitOnFrom_ne_nil w fuel rest), ih]
      exact (eq_append_of_dropInfix? found).symm

@[simp] theorem intercalate_splitOn (w s : List α) : List.intercalate w (splitOn w s) = s :=
  intercalate_splitOnFrom w _ s

theorem one_lt_length_splitOn {w s : List α} (occurs : w <:+: s) : 1 < (splitOn w s).length := by
  rw [splitOn, splitOnFrom]
  cases found : s.dropInfix? w with
  | none => exact absurd occurs (dropInfix?_none_iff.mp found)
  | some cut =>
    have later : 0 < (splitOnFrom w s.length cut.2).length :=
      List.length_pos_iff.mpr (splitOnFrom_ne_nil w _ _)
    simp only [List.length_cons]
    omega

variable {m : Marker α}

theorem splitOnFrom_fresh {fuel : Nat} {s piece : List α} (enough : s.length < fuel)
    (member : piece ∈ splitOnFrom m.word fuel s) : ¬m.word <:+: piece := by
  induction fuel generalizing s with
  | zero => exact absurd enough (Nat.not_lt_zero _)
  | succ fuel ih =>
    rw [splitOnFrom] at member
    cases found : s.dropInfix? m.word with
    | none =>
      rw [found] at member
      rw [List.mem_singleton.mp member]
      exact dropInfix?_none_iff.mp found
    | some cut =>
      obtain ⟨first, rest⟩ := cut
      rw [found] at member
      have same := eq_append_of_dropInfix? found
      rcases List.mem_cons.mp member with rfl | later
      · intro inside
        obtain ⟨a, b, cut, -⟩ := Marker.exists_first inside
        have first := (List.dropInfix?_eq_some_iff.mp found).2 a m.word (b ++ m.word ++ rest)
          (by rw [same, cut]; simp only [List.append_assoc]) (beq_self_eq_true _)
        rw [cut] at first
        simp only [List.length_append, Marker.word, List.length_cons] at first
        omega
      · refine ih ?_ later
        rw [same] at enough
        simp only [List.length_append, Marker.word, List.length_cons] at enough
        omega

theorem splitOn_fresh {s piece : List α} (member : piece ∈ splitOn m.word s) : ¬m.word <:+: piece :=
  splitOnFrom_fresh (Nat.lt_succ_self _) member

theorem splitOnFrom_intercalate {pieces : List (List α)} (some : pieces ≠ [])
    (fresh : ∀ piece ∈ pieces, ¬m.word <:+: piece)
    {fuel : Nat} (enough : (List.intercalate m.word pieces).length < fuel) :
    splitOnFrom m.word fuel (List.intercalate m.word pieces) = pieces := by
  induction pieces generalizing fuel with
  | nil => exact absurd rfl some
  | cons piece pieces ih =>
    by_cases more : pieces = []
    · subst more
      rw [List.intercalate_singleton]
      exact splitOnFrom_of_absent (fresh piece List.mem_cons_self) fuel
    · cases fuel with
      | zero => exact absurd enough (Nat.not_lt_zero _)
      | succ fuel =>
        rw [intercalate_cons _ piece more] at enough ⊢
        simp only [List.length_append, Marker.word, List.length_cons] at enough
        rw [splitOnFrom, dropInfix?_first _ (fresh piece List.mem_cons_self)]
        simp only
        rw [ih more (fun other there => fresh other (List.mem_cons_of_mem piece there))
          (by simp only [Marker.word]; omega)]

/-- `w.join(pieces).split(w) == pieces` where no piece holds the separator. -/
theorem splitOn_intercalate {pieces : List (List α)} (some : pieces ≠ [])
    (fresh : ∀ piece ∈ pieces, ¬m.word <:+: piece) :
    splitOn m.word (List.intercalate m.word pieces) = pieces :=
  splitOnFrom_intercalate some fresh (Nat.lt_succ_self _)

end Pieces

section Single

theorem splitOn_single_fresh {c : α} {s piece : List α} (member : piece ∈ splitOn [c] s) :
    c ∉ piece := by
  let m : Marker α := ⟨c, [], List.not_mem_nil⟩
  have absent : ¬m.word <:+: piece := splitOn_fresh member
  exact fun inside => absent ((List.singleton_infix_iff _ _).mpr inside)

theorem splitOn_single_eq_pair {c : α} {s a b : List α} :
    splitOn [c] s = [a, b] ↔ s = a ++ c :: b ∧ c ∉ a ∧ c ∉ b := by
  let m : Marker α := ⟨c, [], List.not_mem_nil⟩
  constructor
  · intro two
    have joined := intercalate_splitOn [c] s
    rw [two, List.intercalate_cons_cons, List.intercalate_singleton] at joined
    refine ⟨by rw [← joined]; simp, ?_, ?_⟩
    · exact splitOn_single_fresh (s := s) (by rw [two]; simp)
    · exact splitOn_single_fresh (s := s) (by rw [two]; simp)
  · rintro ⟨rfl, left, right⟩
    have fresh : ∀ piece ∈ [a, b], ¬m.word <:+: piece := by
      intro piece member inside
      have there : c ∈ piece := (List.singleton_infix_iff _ _).mp inside
      rcases List.mem_pair.mp member with rfl | rfl
      · exact left there
      · exact right there
    have cut := splitOn_intercalate (List.cons_ne_nil a [b]) fresh
    rw [List.intercalate_cons_cons, List.intercalate_singleton] at cut
    simpa [m, Marker.word] using cut

end Single

section Replace

/-- `s.replace(old, new)` for a word `old` that is not empty. -/
def replace (old new s : List α) : List α := List.intercalate new (splitOn old s)

theorem replace_of_absent {old s : List α} (absent : ¬old <:+: s) (new : List α) :
    replace old new s = s := by
  rw [replace, splitOn_of_absent absent, List.intercalate_singleton]

theorem mem_replace {c : α} {old new s : List α} (member : c ∈ replace old new s) :
    c ∈ new ∨ c ∈ s := by
  rcases mem_intercalate member with added | ⟨piece, there, inside⟩
  · exact .inl added
  · right
    rw [← intercalate_splitOn old s]
    exact mem_intercalate_of_mem there inside

theorem notMem_replace {c : α} {new : List α} (absent : c ∉ new) (s : List α) :
    c ∉ replace [c] new s := by
  intro member
  rcases mem_intercalate member with added | ⟨piece, there, inside⟩
  · exact absent added
  · exact splitOn_single_fresh there inside

theorem filter_intercalate {c : α} {pieces : List (List α)} (fresh : ∀ piece ∈ pieces, c ∉ piece) :
    (List.intercalate [c] pieces).filter (· ≠ c) = List.intercalate [] pieces := by
  induction pieces with
  | nil => rfl
  | cons piece pieces ih =>
    have kept : piece.filter (· ≠ c) = piece := by
      refine List.filter_eq_self.mpr (fun x inside => ?_)
      rw [decide_eq_true_iff]
      rintro rfl
      exact fresh piece List.mem_cons_self inside
    by_cases more : pieces = []
    · subst more
      rw [List.intercalate_singleton, List.intercalate_singleton, kept]
    · rw [intercalate_cons _ piece more, intercalate_cons _ piece more, List.filter_append,
        List.filter_append, kept,
        ih (fun other there => fresh other (List.mem_cons_of_mem piece there))]
      simp

theorem replace_single_nil (c : α) (s : List α) : replace [c] [] s = s.filter (· ≠ c) := by
  have joined := filter_intercalate (fun piece member =>
    splitOn_single_fresh member : ∀ piece ∈ splitOn [c] s, c ∉ piece)
  rw [intercalate_splitOn] at joined
  rw [replace, joined]

variable (w : α → Int)

theorem weight_replace_lt {old new s : List α} (lighter : weight w new < weight w old)
    (occurs : old <:+: s) :
    weight w (replace old new s) < weight w s := by
  have balance := weight_intercalate w old new (splitOn_ne_nil old s)
  rw [intercalate_splitOn] at balance
  have pieces : (0 : Int) < (splitOn old s).length - 1 := by
    have := one_lt_length_splitOn occurs
    omega
  have gain := mul_lt_mul_of_pos_left lighter pieces
  rw [replace]
  linarith

/-- Where the new word is lighter, only a text without the old one stays as it is. -/
theorem replace_eq_self_iff {old new : List α} (lighter : weight w new < weight w old)
    {s : List α} :
    replace old new s = s ↔ ¬old <:+: s := by
  constructor
  · intro same occurs
    have less := weight_replace_lt w lighter occurs
    rw [same] at less
    exact lt_irrefl _ less
  · exact fun absent => replace_of_absent absent new

end Replace

end Verl
