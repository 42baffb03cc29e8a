import Verl.Base.Regex

/-! Sections between an opening and a closing tag, as the lazy pattern `open(.*?)close` finds them
from left to right. An opening tag that stands unclosed takes the next closing tag, whoever it was
meant for. -/
namespace Verl

variable {α : Type u}

/-- Two markers that cannot be confused with each other. -/
structure Tags (α : Type u) where
  opening : Marker α
  closing : Marker α
  openingFresh : opening.head ∉ closing.tail
  closingFresh : closing.head ∉ opening.tail
  apart : ∀ x y, opening.word ++ x ≠ closing.word ++ y

namespace Tags

variable (tags : Tags α)

/-- Some opening tag of the text has no closing tag behind it. -/
def Unclosed (s : List α) : Prop := ∃ v, tags.opening.word ++ v <:+ s ∧ ¬tags.closing.word <:+: v

variable {tags}

theorem suffix_append_cases {s p q : List α} (inside : s <:+ p ++ q) :
    s <:+ q ∨ ∃ p', p' ≠ [] ∧ p' <:+ p ∧ s = p' ++ q := by
  obtain ⟨t, same⟩ := inside
  rcases List.append_eq_append_iff.mp same with ⟨p', rfl, rfl⟩ | ⟨q', rfl, rfl⟩
  · by_cases none : p' = []
    · exact .inl (by simp [none])
    · exact .inr ⟨p', none, ⟨t, rfl⟩, rfl⟩
  · exact .inl ⟨q', rfl⟩

theorem unclosed_append_closing (p b : List α) :
    tags.Unclosed (p ++ (tags.closing.word ++ b)) ↔ tags.Unclosed b := by
  constructor
  · rintro ⟨v, inside, notClosed⟩
    rcases suffix_append_cases inside with within | ⟨p', some, -, same⟩
    · rcases suffix_append_cases within with later | ⟨c, some, part, same⟩
      · exact ⟨v, later, notClosed⟩
      · rcases List.suffix_cons_iff.mp part with rfl | proper
        · exact absurd same (tags.apart v b)
        · obtain ⟨y, c, rfl⟩ := List.exists_cons_of_ne_nil some
          obtain ⟨rfl, -⟩ := List.cons.inj same
          exact absurd (proper.subset List.mem_cons_self) tags.openingFresh
    · have occurs : tags.closing.word <:+: tags.opening.word ++ v := by
        rw [same]
        exact ⟨p', b, by rw [List.append_assoc]⟩
      rcases List.infix_cons_iff.mp occurs with ⟨y, atHead⟩ | later
      · exact absurd atHead.symm (tags.apart v y)
      · exact absurd (Marker.infix_of_notMem later tags.closingFresh) notClosed
  · rintro ⟨v, inside, notClosed⟩
    exact ⟨v, (inside.trans (List.suffix_append _ _)).trans (List.suffix_append _ _), notClosed⟩

theorem not_unclosed_of_none {s : List α} (none : ¬tags.opening.word <:+: s) :
    ¬tags.Unclosed s := by
  rintro ⟨v, inside, -⟩
  exact none ((List.prefix_append _ _).isInfix.trans inside.isInfix)

section Sections

variable [DecidableEq α] (tags)

def sections : Pattern α := seq (lit tags.opening.word) (seq lazyGroup (lit tags.closing.word))

variable {tags}

theorem consumes_sections : Consumes (tags.opening.tail.length + 1) tags.sections := by
  intro s way member
  have taken := consumes_seq (consumes_lit tags.opening.word)
    (consumes_seq consumes_lazyGroup (consumes_lit tags.closing.word)) s way member
  simp only [Marker.word, List.length_cons] at taken
  omega

theorem findall_skip_opening {u : List α} (v : List α) (none : ¬tags.opening.word <:+: u) :
    findall tags.sections (u ++ (tags.opening.word ++ v)) =
      findall tags.sections (tags.opening.word ++ v) := by
  apply findall_skip consumes_sections
  intro b inside some
  apply seq_eq_nil
  rw [lit_eq_nil]
  · simp
  · intro here
    exact none ((Marker.prefix_of_append here some tags.opening.fresh).isInfix.trans inside.isInfix)

theorem findall_none {s : List α} (none : ¬tags.opening.word <:+: s) :
    findall tags.sections s = [] := by
  have skipped : findall tags.sections (s ++ []) = findall tags.sections [] := by
    apply findall_skip consumes_sections
    intro b inside _
    apply seq_eq_nil
    rw [List.append_nil, lit_eq_nil]
    · simp
    · exact fun here => none (here.isInfix.trans inside.isInfix)
  rw [List.append_nil] at skipped
  rw [skipped, findall, findall_nil consumes_sections]

theorem findall_section {a : List α} (b : List α) (open_only : ¬tags.closing.word <:+: a) :
    findall tags.sections (tags.opening.word ++ (a ++ tags.closing.word ++ b)) =
      a :: findall tags.sections b := by
  apply findall_match consumes_sections
  have head := head?_seq (q := seq lazyGroup (lit tags.closing.word))
    (lit_append tags.opening.word (a ++ tags.closing.word ++ b))
    (head?_lazyGroup_lit b open_only)
  exact head

omit [DecidableEq α] in
theorem closing_infix_iff (v a : List α) :
    tags.closing.word <:+: v ++ (tags.opening.word ++ a) ↔
      tags.closing.word <:+: v ∨ tags.closing.word <:+: a := by
  rw [Marker.word, Marker.word, List.cons_append]
  rw [← Marker.word, Marker.infix_append_iff v _ tags.openingFresh]
  constructor
  · rintro (before | occurs)
    · exact .inl before
    · rcases List.infix_cons_iff.mp occurs with ⟨y, atHead⟩ | later
      · exact absurd atHead.symm (tags.apart a y)
      · exact .inr (Marker.infix_of_notMem later tags.closingFresh)
  · rintro (before | after)
    · exact .inl before
    · exact .inr (after.trans (List.suffix_append tags.opening.word a).isInfix)

/-- The last section of a text that ends in one: its own body, unless an opening tag before it
stands unclosed; then the section starts there. -/
theorem findall_last (x a z : List α) (body : ¬tags.closing.word <:+: a)
    (behind : ¬tags.opening.word <:+: z) :
    ∃ groups last, findall tags.sections
      (x ++ (tags.opening.word ++ (a ++ tags.closing.word ++ z))) = groups ++ [last] ∧
      (¬tags.Unclosed x → last = a) ∧
        (tags.Unclosed x → ∃ v, last = v ++ (tags.opening.word ++ a)) := by
  induction h : x.length using Nat.strongRecOn generalizing x with
  | ind len ih =>
    subst h
    by_cases opened : tags.opening.word <:+: x
    · obtain ⟨u, v, rfl, first⟩ := Marker.exists_first opened
      rw [List.append_assoc u, List.append_assoc u, List.append_assoc tags.opening.word,
        findall_skip_opening _ first]
      by_cases closed : tags.closing.word <:+: v
      · obtain ⟨p, q, rfl, early⟩ := Marker.exists_first closed
        obtain ⟨groups, last, rest, own, unclosed⟩ :=
          ih q.length (by simp [Marker.word]; omega) q rfl
        have behindClosing :
            tags.Unclosed (u ++ (tags.opening.word ++ (p ++ tags.closing.word ++ q))) ↔
            tags.Unclosed q := by
          have cut := @unclosed_append_closing α tags (u ++ (tags.opening.word ++ p)) q
          rwa [List.append_assoc, List.append_assoc, ← List.append_assoc p] at cut
        refine ⟨p :: groups, last, ?_, ?_, ?_⟩
        · rw [List.append_assoc (p ++ tags.closing.word) q, findall_section _ early, rest,
            List.cons_append]
        · rwa [behindClosing]
        · rwa [behindClosing]
      · have taken : ¬tags.closing.word <:+: v ++ (tags.opening.word ++ a) := by
          rw [closing_infix_iff]
          rintro (before | after)
          · exact closed before
          · exact body after
        refine ⟨[], v ++ (tags.opening.word ++ a), ?_, ?_, ?_⟩
        · have found := findall_section z taken
          rw [findall_none behind] at found
          rw [List.nil_append, ← found]
          simp only [List.append_assoc]
        · intro none
          exact absurd ⟨v, List.suffix_append u _, closed⟩ none
        · exact fun _ => ⟨v, rfl⟩
    · refine ⟨[], a, ?_, fun _ => rfl, fun unclosed =>
        absurd unclosed (not_unclosed_of_none opened)⟩
      rw [findall_skip_opening _ opened, findall_section z body, findall_none behind,
        List.nil_append]

end Sections

end Tags

end Verl
