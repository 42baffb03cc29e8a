import Mathlib.Algebra.GroupWithZero.Nat
import Verl.Base.Python

/-! What the datasets share: the tokenizer, and the padding and truncation of a token list to a
fixed length. The tokenizer is a parameter. A single text is never padded by it, so the attention
mask that it returns is all ones. -/
namespace Verl.Dataset

inductive Truncation where
  | error
  | left
  | right
  deriving DecidableEq

structure Message where
  role : String
  content : String
  deriving DecidableEq

structure Tokenizer where
  applyChatTemplate : List Message → String
  /-- The token ids of one text, by `add_special_tokens`. -/
  encode : Bool → String → List Int
  eosToken : String
  eosTokenId : Int
  padTokenId : Int

def onesLike (ids : List Int) : List Nat := ids.map (fun _ => 1)

section Fit

variable {α β : Type}

def lastItems (n : Nat) (xs : List α) : List α := if n = 0 then xs else xs.drop (xs.length - n)

def padSequenceToLength (maxSeqLen : Nat) (padTokenId : α) (leftPad : Bool) (tensors : List α) :
    List α :=
  if tensors.length ≥ maxSeqLen then tensors
  else if leftPad then List.replicate (maxSeqLen - tensors.length) padTokenId ++ tensors
  else tensors ++ List.replicate (maxSeqLen - tensors.length) padTokenId

def fit (maxLength : Nat) (truncation : Truncation) (leftPad : Bool) (pad : α) (xs : List α) :
    Py (List α) :=
  if xs.length < maxLength then .ok (padSequenceToLength maxLength pad leftPad xs)
  else if xs.length > maxLength then
    match truncation with
    | .left => .ok (lastItems maxLength xs)
    | .right => .ok (xs.take maxLength)
    | .error => .error .notImplemented
  else .ok xs

theorem lastItems_map (f : α → β) (n : Nat) (xs : List α) :
    lastItems n (xs.map f) = (lastItems n xs).map f := by
  unfold lastItems
  split
  · rfl
  · rw [List.length_map, List.map_drop]

theorem padSequenceToLength_map (f : α → β) (n : Nat) (pad : α) (leftPad : Bool) (xs : List α) :
    padSequenceToLength n (f pad) leftPad (xs.map f) =
      (padSequenceToLength n pad leftPad xs).map f := by
  unfold padSequenceToLength
  rw [List.length_map]
  split
  · rfl
  · cases leftPad <;> simp

theorem fit_map (f : α → β) (maxLength : Nat) (truncation : Truncation) (leftPad : Bool) (pad : α)
    (xs : List α) :
    fit maxLength truncation leftPad (f pad) (xs.map f) =
      (fit maxLength truncation leftPad pad xs).map (List.map f) := by
  unfold fit
  rw [List.length_map]
  split
  · rw [padSequenceToLength_map]
    rfl
  · split
    · cases truncation with
      | left => exact congrArg Except.ok (lastItems_map f maxLength xs)
      | right => exact congrArg Except.ok List.map_take.symm
      | error => rfl
    · rfl

/-- Every column that is cut the same way takes its entries from the same positions. -/
theorem fit_eq_positions (maxLength : Nat) (truncation : Truncation) (leftPad : Bool) (pad : α)
    (xs : List α) :
    fit maxLength truncation leftPad pad xs =
      (fit maxLength truncation leftPad xs.length (List.range xs.length)).map
        (List.map (fun j => xs.getD j pad)) := by
  have entries : (List.range xs.length).map (fun j => xs.getD j pad) = xs := by
    apply List.ext_getElem
    · simp
    · intro j _ inside
      simp [List.getElem?_eq_getElem inside]
  have moved := fit_map (fun j => xs.getD j pad) maxLength truncation leftPad xs.length
    (List.range xs.length)
  have past : xs.getD xs.length pad = pad := by simp
  rw [entries, past] at moved
  exact moved

theorem length_fit_congr {maxLength : Nat} {truncation : Truncation} {leftPad : Bool} {pad : α}
    {other : β} {xs as : List α} {ys bs : List β} (same : xs.length = ys.length)
    (first : fit maxLength truncation leftPad pad xs = .ok as)
    (second : fit maxLength truncation leftPad other ys = .ok bs) : as.length = bs.length := by
  rw [fit_eq_positions, same] at first
  rw [fit_eq_positions] at second
  cases positions : fit maxLength truncation leftPad ys.length (List.range ys.length) with
  | error e =>
    rw [positions] at first
    cases first
  | ok kept =>
    rw [positions] at first second
    cases first
    cases second
    rw [List.length_map, List.length_map]

/-- The positions that a row of length `n` keeps when it is padded on the right: a window of `size`
positions from `offset`. Left truncation to length zero keeps the whole row. -/
structure Window (maxLength : Nat) (truncation : Truncation) (n offset size : Nat) : Prop where
  plain : ¬(truncation = .left ∧ maxLength < n) → offset = 0 ∧ size = maxLength
  left : truncation = .left → maxLength < n → 0 < maxLength → offset = n - maxLength ∧
    size = maxLength
  whole : truncation = .left → maxLength < n → maxLength = 0 → offset = 0 ∧ size = n

theorem window_inside {n offset size : Nat} (fits : offset + size ≤ n) :
    (List.range size).map (fun t => min (offset + t) n) = List.range' offset size := by
  rw [List.range'_eq_map_range]
  apply List.map_congr_left
  intro t member
  have below := List.mem_range.mp member
  exact Nat.min_eq_left (by omega)

theorem window_padded {n size : Nat} (short : n ≤ size) :
    (List.range size).map (fun t => min (0 + t) n) =
      List.range n ++ List.replicate (size - n) n := by
  have whole : size = n + (size - n) := by omega
  rw [whole, List.range_add, List.map_append, Nat.add_sub_cancel_left]
  congr 1
  · rw [window_inside (Nat.le_of_eq (Nat.zero_add n)), List.range_eq_range']
  · rw [List.map_map, List.eq_replicate_iff]
    constructor
    · simp
    · intro i member
      obtain ⟨t, -, rfl⟩ := List.mem_map.mp member
      have past : n ≤ 0 + (n + t) := by omega
      exact Nat.min_eq_right past

theorem fit_positions {maxLength n : Nat} {truncation : Truncation} {kept : List Nat}
    (run : fit maxLength truncation false n (List.range n) = .ok kept) :
    ∃ offset size, Window maxLength truncation n offset size ∧
      kept = (List.range size).map (fun t => min (offset + t) n) := by
  unfold fit at run
  rw [List.length_range] at run
  split at run
  · rename_i short
    cases run
    refine ⟨0, maxLength, ⟨by simp, by omega, by omega⟩, ?_⟩
    rw [window_padded (Nat.le_of_lt short), padSequenceToLength, List.length_range,
      if_neg (Nat.not_le.mpr short)]
    rfl
  · split at run
    · rename_i long
      cases truncation with
      | left =>
        cases run
        by_cases zero : maxLength = 0
        · refine ⟨0, n, ⟨by simp; omega, by omega, by simp⟩, ?_⟩
          rw [window_inside (Nat.le_of_eq (Nat.zero_add n)), lastItems, if_pos zero,
            List.range_eq_range']
        · refine ⟨n - maxLength, maxLength, ⟨by simp; omega, by simp, by omega⟩, ?_⟩
          have size : n - (n - maxLength) = maxLength := by omega
          rw [window_inside (by omega), lastItems, if_neg zero, List.length_range,
            List.range_eq_range', List.drop_range', size]
          simp
      | right =>
        cases run
        refine ⟨0, maxLength, ⟨by simp, by simp, by simp⟩, ?_⟩
        rw [window_inside (by omega), List.take_range, Nat.min_eq_left (Nat.le_of_lt long),
          List.range_eq_range']
      | error => cases run
    · rename_i short long
      cases run
      have same : maxLength = n := by omega
      refine ⟨0, maxLength, ⟨by simp, by omega, by omega⟩, ?_⟩
      rw [window_inside (by omega), same, List.range_eq_range']

end Fit

def computePositionIdWithMask (mask : List Nat) : List Nat :=
  (List.range mask.length).map (fun t => (mask.take (t + 1)).sum - 1)

end Verl.Dataset
