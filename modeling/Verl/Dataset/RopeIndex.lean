import Mathlib.Algebra.GroupWithZero.Nat
import Verl.Base.Masked
import Verl.Base.Python

/-! `get_rope_index` of `models/transformers/qwen2_vl.py`, as `RLHFDataset` calls it: for one
example, with an attention mask and without a video grid. The positions are one row for each of the
three channels: temporal, height and width. -/
namespace Verl.Dataset

structure RopeTokens where
  mergeSize : Nat
  imageTokenId : Int
  videoTokenId : Int
  visionStartTokenId : Int

structure GridThw where
  t : Nat
  h : Nat
  w : Nat
  deriving DecidableEq

def indexFrom (inputTokens : List Int) (token : Int) (st : Nat) : Py Nat :=
  match (inputTokens.drop st).findIdx? (· = token) with
  | some i => .ok (st + i)
  | none => .error (.value "is not in list")

def textBlock (textLen stIdx : Nat) : List (List Nat) :=
  List.replicate 3 ((List.range textLen).map (· + stIdx))

/-- `torch.stack([t_index, h_index, w_index]) + text_len + st_idx`. The frames of an image share
their time, because its `second_per_grid_t` is 0. -/
def gridBlock (llmGridT llmGridH llmGridW start : Nat) : List (List Nat) :=
  let secondPerGridT := 0
  let tokensPerSecond := 2
  let tIndex := (List.range llmGridT).flatMap
    (fun i => List.replicate (llmGridH * llmGridW) (i * secondPerGridT * tokensPerSecond))
  let hIndex := (List.range llmGridT).flatMap (fun _ =>
    (List.range llmGridH).flatMap (List.replicate llmGridW))
  let wIndex := (List.range llmGridT).flatMap (fun _ =>
    (List.range llmGridH).flatMap (fun _ => List.range llmGridW))
  [tIndex, hIndex, wIndex].map (List.map (· + start))

def nextStart (llmPosIdsList : List (List (List Nat))) : Py Nat :=
  match llmPosIdsList.getLast? with
  | none => .ok 0
  | some block =>
    match block.flatten.max? with
    | some last => .ok (last + 1)
    | none =>
      .error (.runtime "max(): Expected reduction dim to be specified for input.numel() == 0")

structure RopeState where
  llmPosIdsList : List (List (List Nat))
  st : Nat
  imageIndex : Nat
  remainImages : Nat
  remainVideos : Nat

/-- `ed_image`, `ed_video`: the next such token, or a place past the end. -/
def nextToken (inputTokens : List Int) (token : Int) (remain st : Nat) : Py Nat :=
  if inputTokens.contains token ∧ remain > 0 then
    indexFrom inputTokens token st
  else .ok (inputTokens.length + 1)

def ropeStep (tokens : RopeTokens) (inputTokens : List Int) (imageGridThw : List GridThw)
    (s : RopeState) : Py RopeState := do
  let edImage ← nextToken inputTokens tokens.imageTokenId s.remainImages s.st
  let edVideo ← nextToken inputTokens tokens.videoTokenId s.remainVideos s.st
  if edImage < edVideo then
    let grid ← pyGet imageGridThw s.imageIndex
    let llmGridH ← pyFloorDiv grid.h tokens.mergeSize
    let llmGridW ← pyFloorDiv grid.w tokens.mergeSize
    let textLen := edImage - s.st
    let stIdx ← nextStart s.llmPosIdsList
    return {
      llmPosIdsList := s.llmPosIdsList ++ [textBlock textLen stIdx,
        gridBlock grid.t llmGridH llmGridW (textLen + stIdx)]
      st := edImage + grid.t * llmGridH * llmGridW
      imageIndex := s.imageIndex + 1
      remainImages := s.remainImages - 1
      remainVideos := s.remainVideos }
  else .error (.type "'NoneType' object is not subscriptable")

/-- `torch.cat(llm_pos_ids_list, dim=1)`, of blocks with three channels. -/
def catChannels (llmPosIdsList : List (List (List Nat))) : Py (List (List Nat)) :=
  if llmPosIdsList = [] then .error (.runtime "torch.cat(): expected a non-empty list of Tensors")
  else .ok ((List.range 3).map (fun c => llmPosIdsList.flatMap (fun block => block.getD c [])))

/-- `position_ids[..., attention_mask == 1] = llm_positions` on one channel; one position is
broadcast. -/
def assignMasked (base : List Int) (mask : List Bool) (values : List Nat) : Py (List Int) :=
  let places := nonzero mask
  if values.length = places.length then .ok (put places (values.map Int.ofNat) base)
  else if values.length = 1 then
    .ok (put places (List.replicate places.length (Int.ofNat (values.headD 0))) base)
  else .error (.runtime "shape mismatch")

def visionTokens (tokens : RopeTokens) (inputIds : List Int) : Py (List Int) :=
  ((List.range inputIds.length).filter (fun i =>
    inputIds[i]? = some tokens.visionStartTokenId)).mapM
    (fun i => pyGet inputIds (i + 1))

def llmPositions (tokens : RopeTokens) (inputTokens : List Int) (imageGridThw : List GridThw) :
    Py (List (List Nat)) := do
  let vision ← visionTokens tokens inputTokens
  let imageNums := vision.count tokens.imageTokenId
  let videoNums := vision.count tokens.videoTokenId
  let start : RopeState := ⟨[], 0, 0, imageNums, videoNums⟩
  let s ← (List.range (imageNums + videoNums)).foldlM (fun s _ =>
    ropeStep tokens inputTokens imageGridThw s) start
  if s.st < inputTokens.length then
    let stIdx ← nextStart s.llmPosIdsList
    catChannels (s.llmPosIdsList ++ [textBlock (inputTokens.length - s.st) stIdx])
  else catChannels s.llmPosIdsList

def getRopeIndex (tokens : RopeTokens) (inputIds : List Int) (imageGridThw : Option (List GridThw))
    (attentionMask : List Nat) :
    Py (List (List Int)) :=
  match imageGridThw with
  | some grids => do
    let mask := attentionMask.map (· == 1)
    let positions ← llmPositions tokens (keep mask inputIds) grids
    positions.mapM (assignMasked (List.replicate inputIds.length 1) mask)
  | none =>
    let positionIds := (List.range attentionMask.length).map (fun t : Nat =>
      if attentionMask[t]? = some 0 then 1 else ((attentionMask.take (t + 1)).sum : Int) - 1)
    .ok (List.replicate 3 positionIds)

section Channels

variable {tokens : RopeTokens} {inputIds : List Int} {attentionMask : List Nat}
  {rope : List (List Int)}

theorem length_catChannels {blocks : List (List (List Nat))} {channels : List (List Nat)}
    (run : catChannels blocks = .ok channels) :
    channels.length = 3 := by
  unfold catChannels at run
  split at run
  · cases run
  · cases run
    simp

theorem length_llmPositions {grids : List GridThw} {channels : List (List Nat)}
    (run : llmPositions tokens inputIds grids = .ok channels) :
    channels.length = 3 := by
  obtain ⟨vision, -, run⟩ := bind_ok_iff.mp run
  obtain ⟨s, -, run⟩ := bind_ok_iff.mp run
  split at run
  · obtain ⟨stIdx, -, run⟩ := bind_ok_iff.mp run
    exact length_catChannels run
  · exact length_catChannels run

theorem length_assignMasked {base row : List Int} {mask : List Bool} {values : List Nat}
    (run : assignMasked base mask values = .ok row) :
    row.length = base.length := by
  unfold assignMasked at run
  simp only at run
  split at run
  · cases run
    exact length_put _ _ _
  · split at run
    · cases run
      exact length_put _ _ _
    · cases run

/-- Whatever the example holds, the result has three channels, each with a position for every
token. -/
theorem getRopeIndex_channels {imageGridThw : Option (List GridThw)}
    (same : attentionMask.length = inputIds.length)
    (run : getRopeIndex tokens inputIds imageGridThw attentionMask = .ok rope) :
    rope.length = 3 ∧ ∀ channel ∈ rope, channel.length = inputIds.length := by
  cases imageGridThw with
  | none =>
    cases run
    constructor
    · simp
    · intro channel member
      rw [List.eq_of_mem_replicate member]
      simpa using same
  | some grids =>
    obtain ⟨positions, found, run⟩ := bind_ok_iff.mp run
    constructor
    · rw [length_mapM_ok run, length_llmPositions found]
    · intro channel member
      obtain ⟨values, -, assigned⟩ := exists_source run member
      rw [length_assignMasked assigned, List.length_replicate]

end Channels

end Verl.Dataset
