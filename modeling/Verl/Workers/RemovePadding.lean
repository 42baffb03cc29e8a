import Mathlib.Algebra.Field.Defs
import Verl.Base.Masked
import Verl.Workers.Forward

/-! `DataParallelPPOActor._forward_micro_batch` on text batches: the padded path, and the
path that packs the valid tokens of all rows into one row and cuts it over the ranks of
an Ulysses sequence parallel group. -/
namespace Verl.Workers

variable {K : Type} {β : Type}

/-- A row of a micro batch; `input_ids` are the prompt and the response. -/
structure SequenceRow where
  prompts : List Nat
  responses : List Nat
  attentionMask : List Bool
  positionIds : List Nat

def SequenceRow.inputIds (row : SequenceRow) : List Nat := row.prompts ++ row.responses

def SequenceRow.tokens (row : SequenceRow) : List (Nat × Nat) := row.inputIds.zip row.positionIds

structure MicroBatch where
  promptLength : Nat
  responseLength : Nat
  rows : List SequenceRow
  promptsShape : ∀ row ∈ rows, row.prompts.length = promptLength
  responsesShape : ∀ row ∈ rows, row.responses.length = responseLength
  maskShape : ∀ row ∈ rows, row.attentionMask.length = promptLength + responseLength
  positionShape : ∀ row ∈ rows, row.positionIds.length = promptLength + responseLength

def MicroBatch.seqlen (batch : MicroBatch) : Nat := batch.promptLength + batch.responseLength

/-- `unpad_input`: the entries with mask 1 in row-major order, and where they stood. -/
def unpadInput (hiddenStates : List (List β)) (attentionMask : List (List Bool)) :
    List β × List Nat :=
  let indices := nonzero attentionMask.flatten
  (pick hiddenStates.flatten indices, indices)

def padInput [Zero β] (hiddenStates : List β) (indices : List Nat) (batch seqlen : Nat) :
    List (List β) :=
  blocks seqlen batch (put indices hiddenStates (List.replicate (batch * seqlen) 0))

def rollBack : List β → List β
  | [] => []
  | x :: xs => xs ++ [x]

def sliceInputTensor (spSize : Nat) (x : List β) : List (List β) :=
  blocks (x.length / spSize) spSize x

def ulyssesPadAndSliceInputs (inputIds : List Nat) (positionIds : Option (List Nat))
    (spSize : Nat) :
    Py (List (List Nat) × Option (List (List Nat)) × Nat) := do
  pyAssert (positionIds.all (fun positionIds => inputIds.length == positionIds.length))
    "input_ids_rmpad.size(1) == position_ids_rmpad.size(1)"
  if spSize ≤ 1 then return ([inputIds], positionIds.map ([·]), 0)
  else
    let padSize := (spSize - inputIds.length % spSize) % spSize
    let padded := inputIds ++ List.replicate padSize 0
    let positions := positionIds.map (fun positionIds => positionIds ++ List.range padSize)
    return (sliceInputTensor spSize padded, positions.map (sliceInputTensor spSize), padSize)

def gatherOutputsAndUnpad (outputs : List (List β)) (paddingSize : Nat) : List β :=
  let x := outputs.flatten
  if paddingSize = 0 then x else x.take (x.length - paddingSize)

def computePositionIdWithMask (mask : List Bool) : List Nat :=
  (List.range mask.length).map (fun j => (mask.take (j + 1)).count true - 1)

def startsSequence (token : Nat × Nat) : Bool := token.2 == 0

/-- A row with mask `0^left 1^valid 0^right` whose position ids start with its first token. -/
structure SequenceRow.Packable (row : SequenceRow) (left valid right : Nat) : Prop where
  mask : row.attentionMask =
    List.replicate left false ++ (List.replicate valid true ++ List.replicate right false)
  two : 2 ≤ valid
  first : row.positionIds[left]? = some 0
  later : ∀ k, 0 < k → k < valid → row.positionIds[left + k]? ≠ some 0

/-- The same with one valid token or more. -/
structure SequenceRow.Runs (row : SequenceRow) (left valid right : Nat) : Prop where
  mask : row.attentionMask =
    List.replicate left false ++ (List.replicate valid true ++ List.replicate right false)
  one : 1 ≤ valid
  first : row.positionIds[left]? = some 0
  later : ∀ k, 0 < k → k < valid → row.positionIds[left + k]? ≠ some 0

theorem SequenceRow.Packable.runs {row : SequenceRow} {left valid right : Nat}
    (packable : row.Packable left valid right) :
    row.Runs left valid right :=
  ⟨packable.mask, Nat.zero_lt_of_lt packable.two, packable.first, packable.later⟩

/-- The actor: how it runs on a packed row, on the slices of such a row that the ranks of a
sequence parallel group have, and on a padded batch. -/
structure ActorModule (K : Type) where
  packed : List (Nat × Nat) → List (List K)
  onRanks : List (List (Nat × Nat)) → List (List (List K))
  padded : MicroBatch → List (List (List K))
  packedLength : ∀ tokens, (packed tokens).length = tokens.length
  /-- The logits at a token depend on its sequence up to it. -/
  causal : ∀ {xs ys : List (Nat × Nat)} {i j : Nat} {seen : List (Nat × Nat)},
    (segmentPrefixes startsSequence xs)[i]? = some seen →
    (segmentPrefixes startsSequence ys)[j]? = some seen →
    (packed xs)[i]? = (packed ys)[j]?
  /-- Together the ranks run the whole packed row. -/
  onRanksShape : ∀ {slices n}, (∀ s ∈ slices, s.length = n) →
    (onRanks slices).map List.length = slices.map List.length
  onRanksFlatten : ∀ {slices n}, (∀ s ∈ slices, s.length = n) →
    (onRanks slices).flatten = packed slices.flatten
  paddedShape : ∀ batch, (padded batch).length = batch.rows.length
  paddedRowShape : ∀ batch, ∀ row ∈ padded batch, row.length = batch.seqlen
  /-- On the valid tokens of a row the padded run gives what a packed run of that row gives. -/
  agrees : ∀ {batch : MicroBatch} {r : Nat} {row : SequenceRow} {left valid right : Nat},
    batch.rows[r]? = some row → row.Packable left valid right → ∀ k < valid,
    (padded batch)[r]?.bind (fun logits => logits[left + k]?) =
    (packed (keep row.attentionMask row.tokens))[k]?

/-- What `_forward_micro_batch` computes from the logits of one token. -/
structure LogitsFns (K : Type) where
  logprobsFromLogits : List K → Nat → K
  entropyFromLogits : List K → K

section Forward

variable [Zero K] [Div K] (actor : ActorModule K) (fns : LogitsFns K) (temperature : K)

def packInputs (spSize : Nat) (inputIds positionIds : List Nat) :
    Py (List (List (Nat × Nat)) × List (List Nat) × Nat) := do
  let rolled := rollBack inputIds
  if spSize > 1 then
    let (ids, positions, padSize) ← ulyssesPadAndSliceInputs inputIds (some positionIds) spSize
    let (labels, _, _) ← ulyssesPadAndSliceInputs rolled none spSize
    return (List.zipWith List.zip ids (positions.getD []), labels, padSize)
  else return ([inputIds.zip positionIds], [rolled], 0)

/-- `_forward_micro_batch` with `use_remove_padding`: entropy and log-probs of the responses. -/
def forwardRmpad (spSize : Nat) (batch : MicroBatch) : Py (List (List K) × List (List K)) := do
  let masks := batch.rows.map SequenceRow.attentionMask
  let (inputIdsRmpad, indices) := unpadInput (batch.rows.map SequenceRow.inputIds) masks
  let positionIdsRmpad := pick (batch.rows.map SequenceRow.positionIds).flatten indices
  let (tokens, labels, padSize) ← packInputs spSize inputIdsRmpad positionIdsRmpad
  let logits := (actor.onRanks tokens).map (List.map (List.map (· / temperature)))
  let entropy := logits.map (List.map fns.entropyFromLogits)
  let logProbs := List.zipWith (List.zipWith fns.logprobsFromLogits) logits labels
  let full := fun outputs =>
    padInput (gatherOutputsAndUnpad outputs padSize) indices batch.rows.length batch.seqlen
  return ((full entropy).map (responseWindow batch.responseLength),
    (full logProbs).map (responseWindow batch.responseLength))

omit [Zero K] in
def forwardPadded (batch : MicroBatch) : List (List K) × List (List K) :=
  let logits := (actor.padded batch).map (List.map (List.map (· / temperature)))
  let response := logits.map (responseWindow batch.responseLength)
  (response.map (List.map fns.entropyFromLogits),
    List.zipWith (List.zipWith fns.logprobsFromLogits) response
    (batch.rows.map SequenceRow.responses))

end Forward

end Verl.Workers
