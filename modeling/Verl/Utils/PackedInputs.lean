import Verl.Base.Bounds
import Verl.Base.Tensor

/-! `pad_packed_inputs` of `verl/utils/model.py`: the tokens of a packed batch are padded to a
multiple of a size, and the padding becomes one more sequence. -/
namespace Verl.Utils
open Tensor (firstDim)

variable {r : Nat} {α : Type} [Zero α]

section Model

def totalNnz (unpadTokens : Tensor (r + 1) α) : Nat := unpadTokens.shape (firstDim r)

/-- `pad_packed_inputs`, of tokens with `r + 1` dimensions. The message of its last branch calls
`ndim`, which is a number. -/
def padPackedInputs (unpadTokens : Tensor (r + 1) α) (cuSeqlens : List Nat)
    (maxSeqlenInBatch size : Nat) :
    Py (Tensor (r + 1) α × List Nat × Nat) := do
  let remainder ← pyMod (totalNnz unpadTokens) size
  let padSize := if remainder = 0 then 0 else size - remainder
  if 0 < padSize then
    let unpadTokens ←
      if r + 1 = 1 then .ok (unpadTokens.pad [0, padSize] 0)
      else if r + 1 = 2 then .ok (unpadTokens.pad [0, 0, 0, padSize] 0)
      else .error (.type "'int' object is not callable")
    match cuSeqlens.getLast? with
    | none => .error .index
    | some last => return (unpadTokens, cuSeqlens ++ [padSize + last], max maxSeqlenInBatch padSize)
  else return (unpadTokens, cuSeqlens, maxSeqlenInBatch)

end Model

theorem totalNnz_append (tokens : Tensor (r + 1) α) (padSize : Nat) :
    totalNnz (tokens.append (firstDim r)
      (Tensor.zeros (Function.update tokens.shape (firstDim r) padSize))) =
      totalNnz tokens + padSize := by
  rw [totalNnz, totalNnz, Tensor.shape_append, Function.update_self, Tensor.zeros,
    Tensor.shape_make, Function.update_self]

/-- Packed sequences: their tokens, the bounds between them and the longest one. -/
structure PackedBatch (r : Nat) (α : Type) [Zero α] where
  tokens : Tensor (r + 1) α
  cuSeqlens : List Nat
  maxSeqlen : Nat
  bounds : IsBounds cuSeqlens (totalNnz tokens)
  longest : maxSeqlen = largest (widths cuSeqlens)

namespace PackedBatch

variable {batch : PackedBatch r α} {size : Nat}

def extend (batch : PackedBatch r α) {padSize : Nat} (some : 0 < padSize) : PackedBatch r α where
  tokens := batch.tokens.append (firstDim r)
    (Tensor.zeros (Function.update batch.tokens.shape (firstDim r) padSize))
  cuSeqlens := batch.cuSeqlens ++ [totalNnz batch.tokens + padSize]
  maxSeqlen := max batch.maxSeqlen padSize
  bounds := by
    rw [totalNnz_append]
    exact batch.bounds.concat some
  longest := by
    rw [widths_concat batch.bounds.last, largest_concat, ← batch.longest]

structure Pads (batch padded : PackedBatch r α) (size : Nat) : Prop where
  count : IsLeast {k | size ∣ k ∧ totalNnz batch.tokens ≤ k} (totalNnz padded.tokens)
  tokens : padded.tokens.narrow (firstDim r) 0 (totalNnz batch.tokens) = batch.tokens
  increasing : IsBounds padded.cuSeqlens (totalNnz padded.tokens)
  bounds : batch.cuSeqlens <+: padded.cuSeqlens
  segments : ∀ start stop, stop ∈ batch.cuSeqlens →
    padded.tokens.narrow (firstDim r) start stop = batch.tokens.narrow (firstDim r) start stop
  longest : widths padded.cuSeqlens ≠ [] →
    IsGreatest {w | w ∈ widths padded.cuSeqlens} padded.maxSeqlen

theorem longest_greatest (some : widths batch.cuSeqlens ≠ []) :
    IsGreatest {w | w ∈ widths batch.cuSeqlens} batch.maxSeqlen :=
  batch.longest ▸ isGreatest_largest some

theorem pads_self (whole : size ∣ totalNnz batch.tokens) : batch.Pads batch size where
  count := ⟨⟨whole, Nat.le_refl _⟩, fun _ other => other.2⟩
  tokens := Tensor.narrow_whole (Nat.le_refl _)
  increasing := batch.bounds
  bounds := List.prefix_refl _
  segments := fun _ _ _ => rfl
  longest := longest_greatest

theorem pads_extend (positive : 0 < size) (odd : ¬size ∣ totalNnz batch.tokens)
    (some : 0 < size - totalNnz batch.tokens % size) :
    batch.Pads (batch.extend some) size where
  count := by
    have count : totalNnz (batch.extend some).tokens =
      totalNnz batch.tokens + (size - totalNnz batch.tokens % size) :=
      totalNnz_append batch.tokens _
    rw [count]
    exact isLeast_padded positive odd
  tokens := Tensor.narrow_append _ _
  increasing := (batch.extend some).bounds
  bounds := List.prefix_append _ _
  segments := fun start _ member => Tensor.narrow_append_of_le _ _ start (batch.bounds.le member)
  longest := longest_greatest

end PackedBatch

section Padding

open PackedBatch

variable {batch : PackedBatch r α} {size : Nat}

theorem padSize_pos (positive : 0 < size) (n : Nat) : 0 < size - n % size :=
  Nat.sub_pos_of_lt (Nat.mod_lt n positive)

theorem padPackedInputs_whole (positive : 0 < size) (whole : size ∣ totalNnz batch.tokens) :
    padPackedInputs batch.tokens batch.cuSeqlens batch.maxSeqlen size =
      .ok (batch.tokens, batch.cuSeqlens, batch.maxSeqlen) := by
  simp only [padPackedInputs, pyMod_pos positive, ok_bind, Nat.mod_eq_zero_of_dvd whole, if_true,
    Nat.lt_irrefl, if_false, pure_eq_ok]

theorem padPackedInputs_extend (positive : 0 < size) (odd : ¬size ∣ totalNnz batch.tokens)
    (dims : r + 1 = 1 ∨ r + 1 = 2) :
    padPackedInputs batch.tokens batch.cuSeqlens batch.maxSeqlen size =
      .ok ((batch.extend (padSize_pos positive (totalNnz batch.tokens))).tokens,
        (batch.extend (padSize_pos positive (totalNnz batch.tokens))).cuSeqlens,
        (batch.extend (padSize_pos positive (totalNnz batch.tokens))).maxSeqlen) := by
  have remainder : ¬totalNnz batch.tokens % size = 0 :=
    fun zero => odd (Nat.dvd_of_mod_eq_zero zero)
  simp only [padPackedInputs, pyMod_pos positive, ok_bind, if_neg remainder,
    if_pos (padSize_pos positive _), batch.bounds.last]
  rcases dims with one | two
  · obtain rfl : r = 0 := by omega
    have padded : batch.tokens.pad [0, size - totalNnz batch.tokens % size] 0 =
        (batch.extend (padSize_pos positive (totalNnz batch.tokens))).tokens :=
          Tensor.pad_first _ batch.tokens
    rw [if_pos rfl, padded, Nat.add_comm (size - totalNnz batch.tokens % size)]
    rfl
  · obtain rfl : r = 1 := by omega
    have padded : batch.tokens.pad [0, 0, 0, size - totalNnz batch.tokens % size] 0 =
        (batch.extend (padSize_pos positive (totalNnz batch.tokens))).tokens :=
          Tensor.pad_first _ batch.tokens
    rw [if_neg (by decide), if_pos rfl, padded, Nat.add_comm (size - totalNnz batch.tokens % size)]
    rfl

/-- Tokens with more dimensions come back only where nothing is to be padded. -/
theorem padPackedInputs_deeper (positive : 0 < size) (odd : ¬size ∣ totalNnz batch.tokens)
    (dims : 2 < r + 1) :
    padPackedInputs batch.tokens batch.cuSeqlens batch.maxSeqlen size =
      .error (.type "'int' object is not callable") := by
  have remainder : ¬totalNnz batch.tokens % size = 0 :=
    fun zero => odd (Nat.dvd_of_mod_eq_zero zero)
  simp only [padPackedInputs, pyMod_pos positive, ok_bind, if_neg remainder,
    if_pos (padSize_pos positive _), if_neg (show ¬r + 1 = 1 by omega),
    if_neg (show ¬r + 1 = 2 by omega), error_bind]

end Padding

/-- For every packed batch of tokens with one or two dimensions and every size the padding returns
a packed batch again, with the next multiple of the size for its count: the tokens and the bounds of
the old sequences stand in front, and the longest sequence is that of the new bounds. -/
theorem padPackedInputs_pads (batch : PackedBatch r α) {size : Nat} (positive : 0 < size)
    (dims : r + 1 = 1 ∨ r + 1 = 2) :
    ∃ padded : PackedBatch r α, padPackedInputs batch.tokens batch.cuSeqlens batch.maxSeqlen size =
      .ok (padded.tokens, padded.cuSeqlens, padded.maxSeqlen) ∧ batch.Pads padded size := by
  by_cases whole : size ∣ totalNnz batch.tokens
  · exact ⟨batch, padPackedInputs_whole positive whole, batch.pads_self whole⟩
  · exact ⟨_, padPackedInputs_extend positive whole dims, batch.pads_extend positive whole _⟩

def samplePacked : PackedBatch 0 Int where
  tokens := Tensor.make (fun _ => 3) (fun i => 7 + i (firstDim 0))
  cuSeqlens := [0, 1, 3]
  maxSeqlen := 2
  bounds := ⟨rfl, rfl, by decide⟩
  longest := by decide

theorem padPackedInputs_pads_sample :
    ∃ padded : PackedBatch 0 Int, padPackedInputs samplePacked.tokens [0, 1, 3] 2 8 =
    .ok (padded.tokens, padded.cuSeqlens, padded.maxSeqlen) ∧ samplePacked.Pads padded 8 :=
  padPackedInputs_pads samplePacked (by decide) (.inl rfl)

end Verl.Utils
