import Mathlib.Data.List.Infix

/-! Regular expressions as a backtracking matcher runs them. A pattern gives the ways it matches at
the start of a word, in the order they are tried, each with what its group captured and the rest of
the word; a greedy star tries the longest way first and a lazy one the shortest. -/
namespace Verl

variable {α : Type u}

section Markers

/-- A word whose first letter does not come back in it. Two occurrences never overlap. -/
structure Marker (α : Type u) where
  head : α
  tail : List α
  fresh : head ∉ tail

def Marker.word (m : Marker α) : List α := m.head :: m.tail

theorem prefix_of_notMem {c : α} {t a rest : List α} (reaches : t <+: a ++ c :: rest)
    (absent : c ∉ t) : t <+: a := by
  induction a generalizing t with
  | nil =>
    cases t with
    | nil => exact List.nil_prefix
    | cons y t => exact absurd (by simp [(List.cons_prefix_cons.mp reaches).1]) absent
  | cons x a ih =>
    cases t with
    | nil => exact List.nil_prefix
    | cons y t =>
      obtain ⟨rfl, onward⟩ := List.cons_prefix_cons.mp reaches
      exact List.cons_prefix_cons.mpr ⟨rfl,
        ih onward (fun there => absent (List.mem_cons_of_mem _ there))⟩

variable {m n : Marker α}

theorem Marker.prefix_of_append {c : α} {a rest : List α} (reaches : m.word <+: a ++ c :: rest)
    (started : a ≠ []) (absent : c ∉ m.tail) : m.word <+: a := by
  cases a with
  | nil => exact absurd rfl started
  | cons x a =>
    obtain ⟨rfl, onward⟩ := List.cons_prefix_cons.mp reaches
    exact List.cons_prefix_cons.mpr ⟨rfl, prefix_of_notMem onward absent⟩

theorem Marker.infix_append_iff {c : α} (a rest : List α) (absent : c ∉ m.tail) :
    m.word <:+: a ++ c :: rest ↔ m.word <:+: a ∨ m.word <:+: c :: rest := by
  induction a with
  | nil => simp [Marker.word]
  | cons x a ih =>
    have head : m.word <+: x :: (a ++ c :: rest) ↔ m.word <+: x :: a := by
      constructor
      · exact fun here => Marker.prefix_of_append here (List.cons_ne_nil x a) absent
      · exact fun here => here.trans (List.prefix_append (x :: a) (c :: rest))
    rw [List.cons_append, List.infix_cons_iff, ih, head, ← or_assoc, ← List.infix_cons_iff]

/-- An occurrence does not start where its first letter does not stand. -/
theorem Marker.infix_of_notMem {t v : List α} (occurs : m.word <:+: t ++ v) (absent : m.head ∉ t) :
    m.word <:+: v := by
  induction t with
  | nil => exact occurs
  | cons x t ih =>
    rcases List.infix_cons_iff.mp occurs with here | later
    · exact absurd (by simp [(List.cons_prefix_cons.mp here).1]) absent
    · exact ih later (fun there => absent (List.mem_cons_of_mem x there))

theorem Marker.exists_first {s : List α} (occurs : m.word <:+: s) :
    ∃ a b, s = a ++ m.word ++ b ∧ ¬m.word <:+: a := by
  induction s with
  | nil => simp [Marker.word] at occurs
  | cons x s ih =>
    by_cases here : m.word <+: x :: s
    · obtain ⟨b, same⟩ := here
      exact ⟨[], b, same.symm, by simp [Marker.word]⟩
    · obtain ⟨a, b, rfl, first⟩ := ih ((List.infix_cons_iff.mp occurs).resolve_left here)
      refine ⟨x :: a, b, rfl, fun inside => ?_⟩
      rcases List.infix_cons_iff.mp inside with atHead | later
      · apply here
        rw [List.append_assoc, ← List.cons_append]
        exact atHead.trans (List.prefix_append _ _)
      · exact first later

end Markers

section Patterns

abbrev Pattern (α : Type u) := List α → List (List α × List α)

def lit [DecidableEq α] (w : List α) : Pattern α := fun s =>
  match w.isPrefixOf? s with
  | some rest => [([], rest)]
  | none => []

def cuts : List α → List (List α × List α)
  | [] => [([], [])]
  | x :: s => ([], x :: s) :: (cuts s).map (fun (a, b) => (x :: a, b))

def lazyGroup : Pattern α := cuts

def greedyAny : Pattern α := fun s => (cuts s).reverse.map (fun (_, rest) => ([], rest))

def greedyClass (c : α → Bool) : Pattern α := fun s =>
  (cuts (s.takeWhile c)).reverse.map (fun (_, rest) => ([], rest ++ s.dropWhile c))

def seq (p q : Pattern α) : Pattern α := fun s =>
  (p s).flatMap (fun (group, rest) => (q rest).map (fun (more, left) => (group ++ more, left)))

/-- The groups of the matches from left to right, for a pattern that matches no empty word. -/
def findallFrom (p : Pattern α) : Nat → List α → List (List α)
  | 0, _ => []
  | fuel + 1, s =>
    match (p s).head? with
    | some (group, rest) => group :: findallFrom p fuel rest
    | none =>
      match s with
      | [] => []
      | _ :: s => findallFrom p fuel s

def findall (p : Pattern α) (s : List α) : List (List α) := findallFrom p (s.length + 1) s

end Patterns

section Matching

variable {p q : Pattern α}

@[simp] theorem lit_append [DecidableEq α] (w rest : List α) :
    lit w (w ++ rest) = [([], rest)] := by
  have found : w.isPrefixOf? (w ++ rest) = some rest :=
    List.isPrefixOf?_eq_some_iff_append_eq.mpr rfl
  simp [lit, found]

theorem lit_eq_nil [DecidableEq α] {w s : List α} (absent : ¬w <+: s) : lit w s = [] := by
  cases found : w.isPrefixOf? s with
  | none => simp [lit, found]
  | some rest => exact absurd ⟨rest, List.isPrefixOf?_eq_some_iff_append_eq.mp found⟩ absent

theorem mem_lit [DecidableEq α] {w s : List α} {way : List α × List α} :
    way ∈ lit w s ↔ way.1 = [] ∧ s = w ++ way.2 := by
  cases found : w.isPrefixOf? s with
  | none =>
    have absent : ∀ rest, s ≠ w ++ rest := by
      intro rest same
      have := List.isPrefixOf?_eq_some_iff_append_eq.mpr same.symm
      rw [found] at this
      cases this
    simp [lit, found, absent]
  | some rest =>
    obtain rfl := List.isPrefixOf?_eq_some_iff_append_eq.mp found
    obtain ⟨group, left⟩ := way
    simp [lit, found, eq_comm]

theorem mem_cuts {s a b : List α} : (a, b) ∈ cuts s ↔ s = a ++ b := by
  induction s generalizing a with
  | nil => simp [cuts, eq_comm]
  | cons x s ih =>
    cases a with
    | nil => simp [cuts, eq_comm]
    | cons y a =>
      simp only [cuts, List.mem_cons, Prod.mk.injEq, reduceCtorEq, false_and, false_or,
        List.mem_map, Prod.exists, List.cons_append, List.cons.injEq]
      constructor
      · rintro ⟨a', b', member, ⟨rfl, rfl⟩, rfl⟩
        exact ⟨rfl, ih.mp member⟩
      · rintro ⟨rfl, rfl⟩
        exact ⟨a, b, ih.mpr rfl, ⟨rfl, rfl⟩, rfl⟩

theorem mem_greedyAny {s : List α} {way : List α × List α} :
    way ∈ greedyAny s ↔ way.1 = [] ∧ ∃ a, s = a ++ way.2 := by
  obtain ⟨group, rest⟩ := way
  simp only [greedyAny, List.mem_map, List.mem_reverse, Prod.exists, mem_cuts, Prod.mk.injEq]
  constructor
  · rintro ⟨a, b, rfl, rfl, rfl⟩
    exact ⟨rfl, a, rfl⟩
  · rintro ⟨rfl, a, rfl⟩
    exact ⟨a, rest, rfl, rfl, rfl⟩

theorem mem_seq {s : List α} {way : List α × List α} :
    way ∈ seq p q s ↔ ∃ first ∈ p s, ∃ second ∈ q first.2,
      way = (first.1 ++ second.1, second.2) := by
  simp [seq, eq_comm]

theorem mem_seq_lit [DecidableEq α] {w s : List α} {way : List α × List α} :
    way ∈ seq (lit w) q s ↔ ∃ rest, s = w ++ rest ∧ way ∈ q rest := by
  rw [mem_seq]
  constructor
  · rintro ⟨first, here, second, there, rfl⟩
    obtain ⟨none, same⟩ := mem_lit.mp here
    exact ⟨first.2, same, by rwa [none, List.nil_append]⟩
  · rintro ⟨rest, rfl, there⟩
    exact ⟨([], rest), mem_lit.mpr ⟨rfl, rfl⟩, way, there, rfl⟩

theorem mem_seq_greedyAny {s : List α} {way : List α × List α} :
    way ∈ seq greedyAny q s ↔ ∃ a rest, s = a ++ rest ∧ way ∈ q rest := by
  rw [mem_seq]
  constructor
  · rintro ⟨first, here, second, there, rfl⟩
    obtain ⟨none, a, same⟩ := mem_greedyAny.mp here
    exact ⟨a, first.2, same, by rwa [none, List.nil_append]⟩
  · rintro ⟨a, rest, rfl, there⟩
    exact ⟨([], rest), mem_greedyAny.mpr ⟨rfl, a, rfl⟩, way, there, rfl⟩

theorem head?_seq {s group rest more left : List α} {others : List (List α × List α)}
    (first : p s = (group, rest) :: others) (second : (q rest).head? = some (more, left)) :
    (seq p q s).head? = some (group ++ more, left) := by
  obtain ⟨ways, follow⟩ := List.head?_eq_some_iff.mp second
  simp [seq, first, follow]

theorem reverse_cuts (s : List α) : ∃ others, (cuts s).reverse = (s, []) :: others := by
  induction s with
  | nil => exact ⟨[], rfl⟩
  | cons x s ih =>
    obtain ⟨others, ih⟩ := ih
    exact ⟨others.map (fun (a, b) => (x :: a, b)) ++
      [([], x :: s)], by simp [cuts, ← List.map_reverse, ih]⟩

theorem greedyClass_run {c : α → Bool} {run : List α} {x : α} (s : List α)
    (inside : ∀ y ∈ run, c y = true)
    (stop : c x = false) : ∃ others, greedyClass c (run ++ x :: s) = ([], x :: s) :: others := by
  have taken : (run ++ x :: s).takeWhile c = run := by
    rw [List.takeWhile_append_of_pos inside, List.takeWhile_cons_of_neg (by simp [stop]),
      List.append_nil]
  have left : (run ++ x :: s).dropWhile c = x :: s := by
    rw [List.dropWhile_append_of_pos inside, List.dropWhile_cons_of_neg (by simp [stop])]
  obtain ⟨others, whole⟩ := reverse_cuts run
  rw [greedyClass, taken, left, whole]
  exact ⟨_, rfl⟩

theorem greedyClass_stop {c : α → Bool} {x : α} (s : List α) (stop : c x = false) :
    greedyClass c (x :: s) = [([], x :: s)] := by
  simp [greedyClass, cuts, stop]

theorem seq_eq_nil {s : List α} (dead : ∀ way ∈ p s, q way.2 = []) : seq p q s = [] := by
  apply List.flatMap_eq_nil_iff.mpr
  rintro ⟨group, rest⟩ member
  exact List.map_eq_nil_iff.mpr (dead _ member)

theorem seq_lazyGroup_cons (x : α) (s : List α) :
    seq lazyGroup q (x :: s) =
      q (x :: s) ++ (seq lazyGroup q s).map (fun (group, rest) => (x :: group, rest)) := by
  simp [seq, lazyGroup, cuts, List.flatMap_map, List.map_flatMap, Function.comp_def]

theorem head?_lazyGroup_lit [DecidableEq α] {m : Marker α} {a : List α} (b : List α)
    (absent : ¬m.word <:+: a) :
    (seq lazyGroup (lit m.word) (a ++ m.word ++ b)).head? = some (a, b) := by
  induction a with
  | nil =>
    have found := lit_append m.word b
    simp only [Marker.word, List.cons_append] at found
    simp [Marker.word, seq_lazyGroup_cons, found]
  | cons x a ih =>
    have notHere : ¬m.word <+: x :: (a ++ m.word ++ b) := by
      intro here
      rw [List.append_assoc] at here
      exact absent (Marker.prefix_of_append here (List.cons_ne_nil x a) m.fresh).isInfix
    rw [List.cons_append, List.cons_append, seq_lazyGroup_cons, lit_eq_nil notHere, List.nil_append,
      List.head?_map, ih (fun occurs => absent (List.infix_cons occurs))]
    rfl

end Matching

section Findall

variable {p q : Pattern α}

def Consumes (n : Nat) (p : Pattern α) : Prop := ∀ s, ∀ way ∈ p s, way.2.length + n ≤ s.length

theorem consumes_lit [DecidableEq α] (w : List α) : Consumes w.length (lit w) := by
  intro s way member
  obtain ⟨-, rfl⟩ := mem_lit.mp member
  rw [List.length_append]
  omega

theorem consumes_lazyGroup : Consumes 0 (lazyGroup : Pattern α) := by
  rintro s ⟨a, b⟩ member
  rw [mem_cuts.mp member, List.length_append]
  simp only
  omega

theorem consumes_greedyClass (c : α → Bool) : Consumes 0 (greedyClass c) := by
  intro s way member
  simp only [greedyClass, List.mem_map, List.mem_reverse, Prod.exists] at member
  obtain ⟨a, b, cut, rfl⟩ := member
  have parts := congrArg List.length (List.takeWhile_append_dropWhile (p := c) (l := s))
  rw [mem_cuts.mp cut] at parts
  simp only [List.length_append] at parts ⊢
  omega

theorem consumes_seq {m n : Nat} (first : Consumes m p) (second : Consumes n q) :
    Consumes (m + n) (seq p q) := by
  intro s way member
  obtain ⟨one, there, two, after, rfl⟩ := mem_seq.mp member
  have := first s one there
  have := second one.2 two after
  simp only
  omega

theorem findallFrom_match {s group rest : List α} (found : (p s).head? = some (group, rest))
    (fuel : Nat) :
    findallFrom p (fuel + 1) s = group :: findallFrom p fuel rest := by
  rw [findallFrom.eq_def]
  simp [found]

theorem findallFrom_skip {x : α} {s : List α} (none : (p (x :: s)).head? = none) (fuel : Nat) :
    findallFrom p (fuel + 1) (x :: s) = findallFrom p fuel s := by
  rw [findallFrom.eq_def]
  simp [none]

variable {n : Nat} (takes : Consumes (n + 1) p)
include takes

theorem findall_nil {fuel : Nat} : findallFrom p fuel [] = [] := by
  cases fuel with
  | zero => rfl
  | succ fuel =>
    cases found : (p []).head? with
    | none =>
      rw [findallFrom.eq_def]
      simp [found]
    | some way =>
      have := takes [] way (List.mem_of_mem_head? found)
      simp at this

theorem findallFrom_enough {s : List α} {fuel : Nat} (enough : s.length < fuel) :
    findallFrom p fuel s = findall p s := by
  induction h : s.length using Nat.strongRecOn generalizing s fuel with
  | ind len ih =>
    subst h
    obtain ⟨fuel, rfl⟩ := Nat.exists_eq_succ_of_ne_zero (Nat.ne_of_gt (Nat.zero_lt_of_lt enough))
    cases found : (p s).head? with
    | none =>
      cases s with
      | nil => rw [findall, findall_nil takes, findall_nil takes]
      | cons x s =>
        have shorter : s.length < (x :: s).length := Nat.lt_succ_self _
        rw [findall, findallFrom_skip found, findallFrom_skip found,
          ih _ shorter (Nat.lt_of_succ_lt_succ enough) rfl, ih _ shorter shorter rfl]
    | some way =>
      have taken := takes s way (List.mem_of_mem_head? found)
      have shorter : way.2.length < s.length := by omega
      rw [findall, findallFrom_match found, findallFrom_match found, ih _ shorter (by omega) rfl,
        ih _ shorter shorter rfl]

theorem findall_match {s group rest : List α} (found : (p s).head? = some (group, rest)) :
    findall p s = group :: findall p rest := by
  have taken := takes s (group, rest) (List.mem_of_mem_head? found)
  rw [findall, findallFrom_match found, findallFrom_enough takes]
  simp only at taken
  omega

/-- Where the pattern matches at no position of `u`, the search goes on behind it. -/
theorem findall_skip {u v : List α} (nowhere : ∀ b, b <:+ u → b ≠ [] → p (b ++ v) = []) :
    findall p (u ++ v) = findall p v := by
  induction u with
  | nil => rfl
  | cons x u ih =>
    have here : (p (x :: (u ++ v))).head? = none := by
      rw [← List.cons_append, nowhere (x :: u) (List.suffix_refl _) (List.cons_ne_nil x u),
        List.head?_nil]
    rw [← ih (fun b inside => nowhere b (inside.trans (List.suffix_cons x u))),
      List.cons_append, findall, findallFrom_skip here, findallFrom_enough takes]
    exact Nat.lt_succ_self _

end Findall

end Verl
