import Mathlib.Data.List.TakeWhile
import Verl.Base.Masked
import Verl.Workers.Rollout

/-! `_pre_process_inputs`, which the vLLM and the SGLang rollout share, on left-padded rows. It
finds the end of the padding by the token ids and does not see the attention mask. -/
namespace Verl.Rollout

variable {Ω : Type}

/-- A prompt row and its mask: some padding, then the valid tokens. -/
structure PaddedRow (padTokenId : Int) (row mask valid : List Int) (padding : Nat) : Prop where
  row : row = List.replicate padding padTokenId ++ valid
  mask : mask = List.replicate padding 0 ++ List.replicate valid.length 1

/-- The function returns the tokens under the mask and nothing else, and does return on a row with a
valid token. -/
structure ReadsPrompt (padTokenId : Int) (row mask : List Int) : Prop where
  exact : ∀ input : Obj Ω, preProcessInputs padTokenId (.vec row) = .ok input →
    input = .tokens (keep (mask.map (· == 1)) row)
  total : 1 ∈ mask → ∃ input : Obj Ω, preProcessInputs padTokenId (.vec row) = .ok input

section Row

variable {padTokenId : Int} {row mask valid : List Int} {padding : Nat}

theorem drop_findIdx {p : Int → Bool} {xs : List Int} {i : Nat} (found : xs.findIdx? p = some i) :
    xs.drop i = xs.dropWhile (!p ·) := by
  induction xs generalizing i with
  | nil => cases found
  | cons x xs ih =>
    rw [List.findIdx?_cons] at found
    by_cases hit : p x = true
    · rw [if_pos hit] at found
      cases found
      simp [hit]
    · rw [if_neg hit] at found
      obtain ⟨j, later, rfl⟩ := Option.map_eq_some_iff.mp found
      simpa [hit] using ih later

/-- The row without its leading pad tokens, or the failed subscript when nothing else is there. -/
theorem preProcessInputs_eq (padTokenId : Int) (row : List Int) :
    (preProcessInputs padTokenId (.vec row) : Py (Obj Ω)) =
    if row.dropWhile (· == padTokenId) = [] then
      .error .index
    else .ok (.tokens (row.dropWhile (· == padTokenId))) := by
  simp only [preProcessInputs, Cell.asVec, ok_bind]
  have same : row.dropWhile (fun x => ! decide (x ≠ padTokenId)) =
      row.dropWhile (· == padTokenId) := by
    congr 1
    funext x
    by_cases pad : x = padTokenId <;> simp [pad]
  cases found : row.findIdx? (· ≠ padTokenId) with
  | none =>
    have all := List.findIdx?_eq_none_iff.mp found
    have padding : row.dropWhile (· == padTokenId) = [] := by
      rw [List.dropWhile_eq_nil_iff]
      intro x member
      simpa using all x member
    rw [if_pos padding]
  | some i =>
    obtain ⟨inside, -, -⟩ := List.findIdx?_eq_some_iff_getElem.mp found
    have dropped := drop_findIdx found
    rw [same] at dropped
    rw [← dropped, if_neg (by simpa using inside)]

theorem keep_paddedRow (padded : PaddedRow padTokenId row mask valid padding) :
    keep (mask.map (· == 1)) row = valid := by
  obtain ⟨rfl, rfl⟩ := padded
  rw [List.map_append, keep_append (by simp)]
  simp [keep_false, keep_true]

theorem dropWhile_paddedRow (padTokenId : Int) (padding : Nat) (valid : List Int) :
    (List.replicate padding padTokenId ++ valid).dropWhile (· == padTokenId) =
      valid.dropWhile (· == padTokenId) :=
  List.dropWhile_append_of_pos (fun x member => by simp [List.eq_of_mem_replicate member])

theorem dropWhile_eq_self_iff (valid : List Int) :
    valid.dropWhile (· == padTokenId) = valid ↔ valid.head? ≠ some padTokenId := by
  cases valid with
  | nil => simp
  | cons token rest =>
    by_cases pad : token = padTokenId
    · subst pad
      constructor
      · intro same
        have shorter : (rest.dropWhile (· == token)).length ≤ rest.length :=
          (List.dropWhile_sublist _).length_le
        simp only [List.dropWhile_cons, beq_self_eq_true, if_true] at same
        rw [same, List.length_cons] at shorter
        omega
      · intro other
        exact absurd rfl other
    · simp [pad]

/-- The padding is told from the prompt exactly when the prompt does not begin with the pad
token. -/
theorem preProcessInputs_readsPrompt_iff (padded : PaddedRow padTokenId row mask valid padding) :
    ReadsPrompt (Ω := Ω) padTokenId row mask ↔ valid.head? ≠ some padTokenId := by
  have kept := keep_paddedRow padded
  have some : 1 ∈ mask ↔ valid ≠ [] := by
    rw [padded.mask]
    simp [List.mem_replicate]
  rw [← dropWhile_eq_self_iff]
  have run := preProcessInputs_eq (Ω := Ω) padTokenId row
  rw [padded.row, dropWhile_paddedRow, ← padded.row] at run
  constructor
  · rintro ⟨exact, total⟩
    rw [kept, run] at exact
    rw [some, run] at total
    by_cases none : valid.dropWhile (· == padTokenId) = []
    · rw [if_pos none] at total
      by_contra different
      obtain ⟨input, failed⟩ := total (fun empty => different (by simp [empty]))
      cases failed
    · rw [if_neg none] at exact
      have same := exact _ rfl
      injection same
  · intro same
    rw [same] at run
    constructor
    · intro input returned
      rw [run] at returned
      split at returned
      · cases returned
      · cases returned
        rw [kept]
    · intro there
      rw [if_neg (some.mp there)] at run
      exact ⟨_, run⟩

end Row

/-- Two places of padding before a prompt that holds the pad token inside. -/
theorem preProcessInputs_readsPrompt_inside :
    ReadsPrompt (Ω := Unit) 0 [0, 0, 7, 0, 8] [0, 0, 1, 1, 1] := by
  have padded : PaddedRow 0 [0, 0, 7, 0, 8] [0, 0, 1, 1, 1] [7, 0, 8] 2 := ⟨rfl, rfl⟩
  exact (preProcessInputs_readsPrompt_iff padded).mpr (by decide)

/-- A prompt that begins with the pad token loses it. -/
theorem preProcessInputs_readsPrompt_first : PaddedRow 0 [0, 0, 7] [0, 1, 1] [0, 7] 1 ∧
    (preProcessInputs 0 (.vec [0, 0, 7]) : Py (Obj Unit)) = .ok (.tokens [7]) ∧
      ¬ReadsPrompt (Ω := Unit) 0 [0, 0, 7] [0, 1, 1] := by
  refine ⟨⟨rfl, rfl⟩, rfl, ?_⟩
  intro reads
  have same := reads.exact (.tokens [7]) rfl
  cases same

end Verl.Rollout
