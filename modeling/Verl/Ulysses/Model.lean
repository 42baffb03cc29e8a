import Mathlib.Algebra.GroupWithZero.Nat
import Mathlib.Data.Fin.VecNotation
import Verl.Base.Tensor

/-! `verl/utils/ulysses.py` on the ranks of a sequence parallel group, and its use around flash
attention. A function that communicates takes what the ranks hand in, in rank order, and the rank
that it runs on. The exchanges are the synchronous ones, as all callers run them. `grouped` says
that a group is set. -/
namespace Verl.Ulysses
open Tensor

variable {r : Nat} {α : Type} [Zero α]

section Slices

def batchDim : Fin 2 := ⟨0, Nat.two_pos⟩

def tokenDim : Fin 2 := ⟨1, Nat.one_lt_two⟩

def padTensor (x : Tensor r α) (d : Fin r) (paddingSize : Nat) : Tensor r α :=
  x.append d (zeros (Function.update x.shape d paddingSize))

/-- `_unpad_tensor`: the slice `0:-padding_size`, which is empty for a padding of 0. -/
def unpadTensor (x : Tensor r α) (d : Fin r) (paddingSize : Int) : Tensor r α :=
  x.narrow d 0 (if 0 < paddingSize then x.shape d - paddingSize.toNat else (-paddingSize).toNat)

def sliceInputTensor (spWorldSize spRank : Nat) (x : Tensor r α) (d : Fin r) (padding : Bool) :
    Tensor r α :=
  let padded := if padding && x.shape d % spWorldSize != 0 then
    padTensor x d (spWorldSize - x.shape d % spWorldSize) else x
  let parts := padded.shape d / spWorldSize
  padded.narrow d (spRank * parts) ((spRank + 1) * parts)

def arangeRow (n : Nat) : Tensor 2 Nat := make ![1, n] (fun i => i tokenDim)

/-- `ulysses_pad_and_slice_inputs` on a rank of a group of `spWorldSize`. -/
def ulyssesPadAndSliceInputs (spWorldSize spRank : Nat) (inputIdsRmpad : Tensor 2 Nat)
    (positionIdsRmpad : Option (Tensor 2 Nat))
    (spSize : Nat) : Py (Tensor 2 Nat × Option (Tensor 2 Nat) × Nat) := do
  pyAssert (positionIdsRmpad.all (fun positionIds => positionIds.shape batchDim == 1))
    "position_ids_rmpad.size(0) == 1"
  pyAssert (positionIdsRmpad.all (fun positionIds =>
    inputIdsRmpad.shape tokenDim == positionIds.shape tokenDim))
    "input_ids_rmpad.size(1) == position_ids_rmpad.size(1)"
  if spSize ≤ 1 then return (inputIdsRmpad, positionIdsRmpad, 0)
  else
    let totalSeqLen := inputIdsRmpad.shape tokenDim
    let padSize := (spSize - totalSeqLen % spSize) % spSize
    let inputIds := if padSize > 0 then padTensor inputIdsRmpad tokenDim padSize else inputIdsRmpad
    let positionIds :=
      if padSize > 0 then
        positionIdsRmpad.map (fun positionIds => positionIds.append tokenDim (arangeRow padSize))
      else positionIdsRmpad
    return (sliceInputTensor spWorldSize spRank inputIds tokenDim false,
      positionIds.map (fun positionIds => sliceInputTensor spWorldSize spRank positionIds tokenDim
      false), padSize)

end Slices

section Gather

def received (locals : List (Tensor r α)) (buffer : Tensor r α) : Py (List (Tensor r α)) :=
  if locals.all (fun x => decide (SameShape x.shape buffer.shape)) then .ok locals
  else .error (.runtime "tensor sizes must match across ranks")

def allGatherTensor (locals : List (Tensor (r + 1) α)) (rank : Nat) : Py (Tensor (r + 1) α) := do
  let own ← pyGet locals rank
  let outputList ← received locals own
  cat 0 outputList

structure GatherCtx (r : Nat) where
  gatherDim : Fin (r + 1)
  gradScaler : Bool
  spWorldSize : Nat
  spRank : Nat
  partSize : Nat

def Gather.forward (locals : List (Tensor (r + 1) α)) (rank : Nat) (gatherDim : Fin (r + 1))
    (gradScaler : Bool) :
    Py (Tensor (r + 1) α × GatherCtx r) := do
  let own ← pyGet locals rank
  let output ← allGatherTensor locals rank
  let pieces ← output.split (own.shape 0) 0
  let x ← cat gatherDim pieces
  return (x, ⟨gatherDim, gradScaler, locals.length, rank, own.shape gatherDim⟩)

def Gather.backward [Mul α] [NatCast α] (ctx : GatherCtx r) (gradOutput : Tensor (r + 1) α) :
    Py (Tensor (r + 1) α) := do
  let scaled := if ctx.gradScaler then gradOutput.scale (ctx.spWorldSize : α) else gradOutput
  let pieces ← scaled.split ctx.partSize ctx.gatherDim
  pyGet pieces ctx.spRank

def gatherOutpusAndUnpad (grouped : Bool) (locals : List (Tensor (r + 1) α)) (rank : Nat)
    (gatherDim : Fin (r + 1))
    (unpadDim : Option (Fin (r + 1))) (paddingSize : Nat) (gradScaler : Bool) :
    Py (Tensor (r + 1) α) :=
  if grouped then do
    let (x, _) ← Gather.forward locals rank gatherDim gradScaler
    match unpadDim with
    | none => return x
    | some d => if paddingSize = 0 then return x else return unpadTensor x d paddingSize
  else pyGet locals rank

end Gather

section Exchange

/-- `all_to_all_tensor`: rank `j` sends its `i`-th piece to rank `i`, into a buffer like the
receiver's first piece. -/
def allToAllTensor (locals : List (Tensor r α)) (rank : Nat) (scatterDim gatherDim : Fin r) :
    Py (Tensor r α) := do
  let inputLists := locals.map (tensorSplit locals.length scatterDim)
  let inputList ← pyGet inputLists rank
  let buffer ← pyGet inputList 0
  let sent ← inputLists.mapM (fun inputList => pyGet inputList rank)
  let outputList ← received sent buffer
  cat gatherDim outputList

structure SeqAllToAllCtx (r : Nat) where
  scatterDim : Fin r
  gatherDim : Fin r

def SeqAllToAll.forward (locals : List (Tensor r α)) (rank : Nat) (scatterDim gatherDim : Fin r) :
    Py (Tensor r α × SeqAllToAllCtx r) := do
  let x ← allToAllTensor locals rank scatterDim gatherDim
  return (x, ⟨scatterDim, gatherDim⟩)

def SeqAllToAll.backward (ctx : SeqAllToAllCtx r) (gradOutputs : List (Tensor r α)) (rank : Nat) :
    Py (Tensor r α) :=
  allToAllTensor gradOutputs rank ctx.gatherDim ctx.scatterDim

def gatherSeqScatterHeads (grouped : Bool) (locals : List (Tensor r α)) (rank : Nat)
    (seqDim headDim : Fin r) (unpaddedDimSize : Nat) : Py (Tensor r α) :=
  if grouped then do
    let (x, _) ← SeqAllToAll.forward locals rank headDim seqDim
    if unpaddedDimSize ≠ 0 ∧ unpaddedDimSize % locals.length ≠ 0 then
      return unpadTensor x seqDim ((x.shape seqDim : Int) - unpaddedDimSize)
    else return x
  else pyGet locals rank

/-- `gather_heads_scatter_seq`: each rank pads its own tensor before the exchange. -/
def gatherHeadsScatterSeq (grouped : Bool) (locals : List (Tensor r α)) (rank : Nat)
    (headDim seqDim : Fin r) : Py (Tensor r α) :=
  if grouped then do
    let padded := locals.map (fun x =>
      if x.shape seqDim % locals.length ≠ 0 then
        padTensor x seqDim (locals.length - x.shape seqDim % locals.length)
      else x)
    let (x, _) ← SeqAllToAll.forward padded rank seqDim headDim
    return x
  else pyGet locals rank

theorem one_lt_four : 1 < 4 := by decide

theorem two_lt_four : 2 < 4 := by decide

/-- Two of the dimensions `(batch_size, seqlen, nheads, head_dim)`. -/
def seqlenDim : Fin 4 := ⟨1, one_lt_four⟩

def nheadsDim : Fin 4 := ⟨2, two_lt_four⟩

/-- The states that the ranks hand in, with their position ids. -/
structure AttentionInputs (α : Type) [Zero α] where
  query : List (Tensor 4 α)
  key : List (Tensor 4 α)
  value : List (Tensor 4 α)
  positionIds : List (Option (Tensor 2 Nat))

def requirePositionIds : Option (Tensor 2 Nat) → Py (Tensor 2 Nat)
  | some positionIds => .ok positionIds
  | none => .error (.assertion "position_ids is required for Ulysses sequence parallelism")

variable (flashAttentionForward : Tensor 4 α → Tensor 4 α → Tensor 4 α →
    Option (Tensor 2 Nat) → Tensor 4 α)

def attendOnRank (grouped : Bool) (inputs : AttentionInputs α) (ulyssesSpSize rank : Nat) :
    Py (Tensor 4 α) := do
  if ulyssesSpSize > 1 then
    let locals ← inputs.positionIds.mapM requirePositionIds
    let queryStates ← gatherSeqScatterHeads grouped inputs.query rank seqlenDim nheadsDim 0
    let keyStates ← gatherSeqScatterHeads grouped inputs.key rank seqlenDim nheadsDim 0
    let valueStates ← gatherSeqScatterHeads grouped inputs.value rank seqlenDim nheadsDim 0
    let own ← pyGet locals rank
    let positionIdsList ← received locals own
    let positionIds ← cat tokenDim positionIdsList
    return flashAttentionForward queryStates keyStates valueStates (some positionIds)
  else
    let queryStates ← pyGet inputs.query rank
    let keyStates ← pyGet inputs.key rank
    let valueStates ← pyGet inputs.value rank
    let own ← pyGet inputs.positionIds rank
    return flashAttentionForward queryStates keyStates valueStates own

def ulyssesFlashAttentionForward (grouped : Bool) (inputs : AttentionInputs α) (rank : Nat) :
    Py (Tensor 4 α) := do
  let ulyssesSpSize := if grouped then inputs.query.length else 1
  if ulyssesSpSize > 1 then
    let attnOutput ← (List.range ulyssesSpSize).mapM
      (attendOnRank flashAttentionForward grouped inputs ulyssesSpSize)
    gatherHeadsScatterSeq grouped attnOutput rank nheadsDim seqlenDim
  else attendOnRank flashAttentionForward grouped inputs ulyssesSpSize rank

end Exchange

end Verl.Ulysses
