import Verl.Megatron.Layout
import Verl.Protocol.Collectives
import Verl.SingleController.Dispatch

/-! `MEGATRON_COMPUTE_PROTO`, `MEGATRON_PP_AS_DP_PROTO`, and generation under
`MegatronVLLMShardingManager`. Ranks that meet in a collective are modelled in
lockstep: every rank has finished a phase when the next one starts, and an
`all_gather` concatenates in the order of the ranks of its group. -/
namespace Verl.SingleController
open Protocol Megatron

variable {τ ω μ : Type}

section Dispatch

variable {A O : Type}

def dispatchMegatron (layout : Layout) (size : Nat) (argRank : RankInfo → Nat)
    (args : List (List A)) :
    Py (List (List A)) :=
  args.mapM (fun arg => do
    pyAssert (arg.length == size) ""
    (List.range layout.worldSize).mapM (fun i => pyGet arg (argRank (layout.rankInfo i))))

def dispatchMegatronCompute (layout : Layout) : List (List A) → Py (List (List A)) :=
  dispatchMegatron layout layout.dpSize RankInfo.dpRank

def dispatchMegatronPpAsDp (layout : Layout) : List (List A) → Py (List (List A)) :=
  dispatchMegatron layout (layout.ppSize * layout.dpSize) (fun info =>
    info.dpRank * layout.ppSize + info.ppRank)

/-- The outputs of the ranks with `tp_rank == 0` of one pipeline stage, in rank order. -/
def collectMegatron (layout : Layout) (ppRank : Nat) (output : List O) : Py (List O) :=
  ((List.range layout.worldSize).filter (fun rank =>
    (layout.rankInfo rank).tpRank = 0 ∧ (layout.rankInfo rank).ppRank = ppRank)).mapM (pyGet output)

def collectMegatronCompute (layout : Layout) : List O → Py (List O) :=
  collectMegatron layout (layout.ppSize - 1)

def collectMegatronPpAsDp (layout : Layout) : List O → Py (List O) := collectMegatron layout 0

end Dispatch

def megatronComputeProto (layout : Layout) : DispatchMode τ ω μ where
  dispatch args := do
    let args ← splitArgs layout.dpSize args
    dispatchMegatronCompute layout args
  collect := collectMegatronCompute layout

def megatronPpAsDpProto (layout : Layout) : DispatchMode τ ω μ where
  dispatch args := do
    let args ← splitArgs (layout.dpSize * layout.ppSize) args
    dispatchMegatronPpAsDp layout args
  collect := collectMegatronPpAsDp layout

section Sharding

variable (layout : Layout) (inferTpSize : Nat)

def microDpSize : Nat := layout.tpSize / inferTpSize

def preprocessData (inputs : List (DataProto τ ω μ)) (rank : Nat) : Py (DataProto τ ω μ) := do
  let data ← pyGet inputs rank
  let src ← pyGet inputs (rank / layout.tpSize * layout.tpSize)
  let batch ← broadcastDictTensor data.batch src.batch
  let data := { data with batch := batch }
  let size := microDpSize layout inferTpSize
  if size > 1 then DataProtoFuture.chunkAt size (rank % size) data else .ok data

/-- `data.batch = allgather_dict_tensors(data.batch, .., group)` on a rank of the group. -/
def gatherBatch (outputs : List (DataProto τ ω μ)) (group : List Nat) (data : DataProto τ ω μ) :
    Py (DataProto τ ω μ) := do
  let members ← group.mapM (pyGet outputs)
  let batch ← allgatherDictTensors data.batch (members.map DataProto.batch)
  return { data with batch := batch }

def gatherMicroDp (outputs : List (DataProto τ ω μ)) (rank : Nat) : Py (DataProto τ ω μ) := do
  let data ← pyGet outputs rank
  let size := microDpSize layout inferTpSize
  if size > 1 then
    gatherBatch outputs ((List.range size).map (fun j => rank / size * size + j)) data
  else .ok data

/-- The gather among the pipeline group, unless `allgather_pp_output` is set to false. -/
def gatherPp (truthy : μ → Bool) (outputs : List (DataProto τ ω μ)) (rank : Nat) :
    Py (DataProto τ ω μ) := do
  let data ← pyGet outputs rank
  if ((data.metaInfo.get? "allgather_pp_output").map truthy).getD true then
    gatherBatch outputs ((List.range layout.ppSize).map (fun pp =>
      layout.globalRank { layout.rankInfo rank with ppRank := pp })) data
  else .ok data

/-- The rollout returns `DataProto(batch=batch)`: no object columns, no `meta_info`. -/
def generated (generate : DataProto τ ω μ → Py (TensorDict τ)) (prompts : DataProto τ ω μ) :
    Py (DataProto τ ω μ) := do
  let batch ← generate prompts
  DataProto.new (some batch) .empty .empty

def generateSequences (truthy : μ → Bool) (generate : DataProto τ ω μ → Py (TensorDict τ))
    (prompts : List (DataProto τ ω μ)) : Py (List (DataProto τ ω μ)) := do
  let ranks := List.range layout.worldSize
  let prompts ← ranks.mapM (preprocessData layout inferTpSize prompts)
  let outputs ← prompts.mapM (generated generate)
  let outputs ← ranks.mapM (gatherMicroDp layout inferTpSize outputs)
  ranks.mapM (gatherPp layout truthy outputs)

end Sharding

section Collect

variable {A O : Type} {layout : Layout}

theorem dispatchMegatron_single {size : Nat} {argRank : RankInfo → Nat} (entry : Nat → A)
    (inside : ∀ info, layout.Valid info → argRank info < size) :
    dispatchMegatron layout size argRank [(List.range size).map entry] =
      .ok [(List.range layout.worldSize).map (fun rank =>
        entry (argRank (layout.rankInfo rank)))] := by
  have each : (List.range layout.worldSize).mapM
      (fun i => pyGet ((List.range size).map entry) (argRank (layout.rankInfo i))) =
      .ok ((List.range layout.worldSize).map (fun rank =>
        entry (argRank (layout.rankInfo rank)))) := by
    apply mapM_ok
    intro rank member
    exact pyGet_map_range entry (inside _ (Layout.valid_rankInfo (List.mem_range.mp member)))
  simp [dispatchMegatron, each]

theorem collectMegatron_spec {B : Type} {R : O → B → Prop} {outputs : List O} {result : Nat → B}
    (each : List.Forall₂ R outputs ((List.range layout.worldSize).map result)) {pp : Nat}
    (hpp : pp < layout.ppSize) :
    ∃ collected, collectMegatron layout pp outputs = .ok collected ∧
      List.Forall₂ R collected
        ((List.range layout.dpSize).map (fun dp => result (layout.globalRank ⟨0, dp, pp⟩))) := by
  rw [collectMegatron, Layout.filter_stage hpp, List.mapM_map]
  obtain ⟨collected, run, related⟩ :=
    mapM_forall₂ (fun dp => pyGet outputs (layout.globalRank ⟨0, dp, pp⟩))
    (fun dp o => R o (result (layout.globalRank ⟨0, dp, pp⟩))) (List.range layout.dpSize) (by
      intro dp member
      have inside : layout.globalRank ⟨0, dp, pp⟩ < layout.worldSize :=
        Layout.globalRank_lt ⟨layout.tpPositive, List.mem_range.mp member, hpp⟩
      have length : outputs.length = layout.worldSize := by simpa using each.length_eq
      refine ⟨_, pyGet_of_lt (length ▸ inside), ?_⟩
      have related := (List.forall₂_iff_get.mp each).2 _ (length ▸ inside) (by simpa using inside)
      simp only [List.get_eq_getElem, List.getElem_map, List.getElem_range] at related
      exact related)
  exact ⟨collected, run, by simpa [List.forall₂_map_right_iff] using related.flip⟩

end Collect

theorem collected_blocks {layout : Layout} {y : DataProto τ ω μ} {n size pp : Nat}
    (aligned : y.Aligned n)
    (total : n = layout.dpSize * size) (stage : pp < layout.ppSize)
    {outputs : List (DataProto τ ω μ)}
    (same : List.Forall₂ DataProto.SameColumns outputs
      ((List.range layout.worldSize).map (fun rank =>
        y.pickRows (blockIdx size (layout.rankInfo rank).dpRank)))) :
    ∃ collected out, collectMegatron layout pp outputs = .ok collected ∧
      DataProto.concat collected = .ok out ∧ out.SameColumns y := by
  obtain ⟨collected, run, related⟩ := collectMegatron_spec same stage
  have blocks : (List.range layout.dpSize).map (fun dp =>
      y.pickRows (blockIdx size (layout.rankInfo (layout.globalRank ⟨0, dp, pp⟩)).dpRank)) =
      ((List.range layout.dpSize).map (blockIdx size)).map (fun idx => y.pickRows idx) := by
    rw [List.map_map]
    apply List.map_congr_left
    intro dp member
    simp [Layout.rankInfo_globalRank ⟨0, dp, pp⟩ ⟨layout.tpPositive,
      List.mem_range.mp member, stage⟩]
  rw [blocks] at related
  obtain ⟨out, joined, sameOut⟩ := concat_outputs aligned (by rw [flatten_blockIdx, total])
    (by simpa using Nat.pos_iff_ne_zero.mp layout.dpPositive) related
  exact ⟨collected, out, run, joined, sameOut⟩

theorem megatronCompute_call {layout : Layout} {f : DataProto τ ω μ → Py (DataProto τ ω μ)}
    {x : DataProto τ ω μ} (rowWise : RowWise f x) (aligned : x.Aligned x.len) (nonempty : 0 < x.len)
    (divides : layout.dpSize ∣ x.len) :
    ∃ y out, f x = .ok y ∧ y.Aligned x.len ∧
      call (megatronComputeProto layout) layout.worldSize (unary f) [.proto x] = .ok out ∧
        out.SameColumns y := by
  obtain ⟨size, length⟩ := divides
  have rows : 0 < size := Nat.pos_of_ne_zero (by rintro rfl; simp at length; omega)
  obtain ⟨y, hy, alignedY, each⟩ := rowWise
  have pieces := DataProto.chunk_eq aligned rfl layout.dpPositive rows length
  have dispatched : (megatronComputeProto layout).dispatch [.proto x] =
    .ok [(List.range layout.worldSize).map
      (fun rank => Arg.proto (x.pickRows (blockIdx size (layout.rankInfo rank).dpRank)))] := by
    have split : splitArgs layout.dpSize [.proto x] =
        .ok [(List.range layout.dpSize).map (fun i =>
          Arg.proto (x.pickRows (blockIdx size i)))] := by
      simp [splitArgs, Arg.chunk, pieces]
    simp only [megatronComputeProto, split, ok_bind, dispatchMegatronCompute]
    exact dispatchMegatron_single _ (fun info valid => valid.dp)
  obtain ⟨outputs, houtputs, same⟩ := outputs_of_rowWise each
    ((List.range layout.worldSize).map (fun rank => blockIdx size (layout.rankInfo rank).dpRank))
    (by
      intro idx member
      obtain ⟨rank, _, rfl⟩ := List.mem_map.mp member
      exact List.ne_nil_of_length_pos (by simpa using rows))
    (by
      intro idx member
      obtain ⟨rank, hrank, rfl⟩ := List.mem_map.mp member
      exact length ▸ blockIdx_inside (Layout.valid_rankInfo (List.mem_range.mp hrank)).dp)
  have refs : executeAll layout.worldSize (registered (unary f)) [(List.range layout.worldSize).map
      (fun rank => Arg.proto (x.pickRows (blockIdx size (layout.rankInfo rank).dpRank)))] =
        outputs.map .ok := by
    rw [executeAll_single _ (by simp), ← houtputs, List.map_map, List.map_map]
    apply List.map_congr_left
    intro rank _
    exact registered_inl (unary f) (.proto _)
  rw [List.map_map] at same
  obtain ⟨collected, out, hcollected, joined, sameOut⟩ :=
    collected_blocks alignedY length (Nat.sub_lt layout.ppPositive Nat.one_pos) same
  refine ⟨y, out, hy, alignedY, ?_, sameOut⟩
  rw [call, dispatched]
  simp only [ok_bind, refs, rayGet_ok, megatronComputeProto, collectMegatronCompute,
    hcollected, joined]

section Generation

def tensorsOnly (batch : TensorDict τ) : DataProto τ ω μ := ⟨some batch, .empty, .empty⟩

theorem generated_ok {generate : DataProto τ ω μ → Py (TensorDict τ)}
    {prompts out : DataProto τ ω μ}
    (returned : generated generate prompts = .ok out) : ∃ batch, out = tensorsOnly batch := by
  simp only [generated, DataProto.new, bind_ok_iff, pure_eq_ok, Except.ok.injEq] at returned
  obtain ⟨batch, _, _, _, rfl⟩ := returned
  exact ⟨batch, rfl⟩

theorem generated_pickRows {generate : DataProto τ ω μ → Py (TensorDict τ)} {x : DataProto τ ω μ}
    (rowWise : RowWise (generated generate) x) :
    ∃ batch : TensorDict τ, batch.batchSize = x.len ∧
      generated generate x = .ok (tensorsOnly batch) ∧ ∀ idx, idx ≠ [] → (∀ i ∈ idx, i < x.len) →
        generated generate (x.pickRows idx) = .ok (tensorsOnly (batch.pickRows idx)) := by
  obtain ⟨y, hy, alignedY, each⟩ := rowWise
  obtain ⟨batch, rfl⟩ := generated_ok hy
  refine ⟨batch, alignedY.batch batch rfl, hy, ?_⟩
  intro idx some inside
  obtain ⟨z, hz, same⟩ := each idx some inside
  obtain ⟨piece, rfl⟩ := generated_ok hz
  have equal : piece = batch.pickRows idx := by
    simpa [tensorsOnly, DataProto.pickRows] using same.batch
  rw [hz, equal]

theorem gatherBatch_spec (held : Nat → List Nat) {worldSize : Nat} {batch : TensorDict τ}
    {rank : Nat} {group : List Nat} (nonempty : group ≠ [])
    (members : ∀ other ∈ group, other < worldSize) (inside : rank < worldSize)
    (within : ∀ other < worldSize, ∀ i ∈ held other, i < batch.batchSize)
    (equal : ∀ other ∈ group, (held other).length = (held rank).length) :
    gatherBatch ((List.range worldSize).map (fun rank =>
      (tensorsOnly (batch.pickRows (held rank)) : DataProto τ ω μ)))
      group (tensorsOnly (batch.pickRows (held rank))) =
      .ok (tensorsOnly (batch.pickRows (group.map held).flatten)) := by
  have fetched : group.mapM (pyGet ((List.range worldSize).map
      (fun rank => (tensorsOnly (batch.pickRows (held rank)) : DataProto τ ω μ)))) =
      .ok (group.map (fun rank => tensorsOnly (batch.pickRows (held rank)))) :=
    mapM_ok _ _ _ (fun other member => pyGet_map_range _ (members other member))
  have gathered := allgather_pickRows batch (group.map held) (held rank) (by simpa using nonempty)
    (within rank inside)
    (by
      intro idx hidx
      obtain ⟨other, member, rfl⟩ := List.mem_map.mp hidx
      exact within other (members other member))
    (by
      intro idx hidx
      obtain ⟨other, member, rfl⟩ := List.mem_map.mp hidx
      exact equal other member)
  rw [List.map_map] at gathered
  simp only [gatherBatch, fetched, ok_bind, List.map_map]
  show (allgatherDictTensors (some (batch.pickRows (held rank)))
    (group.map ((fun idx => some (batch.pickRows idx)) ∘ held)) >>= _) = _
  rw [gathered]
  rfl

/-- Where the rows of a rank come from: `size` rows each, in the order dp, pp, micro dp. -/
structure Shares (layout : Layout) (inferTpSize size n : Nat) : Prop where
  infer : inferTpSize ∣ layout.tpSize
  micro : 0 < microDpSize layout inferTpSize
  rows : 0 < size
  total : n = layout.dpSize * (layout.ppSize * (microDpSize layout inferTpSize * size))

variable {layout : Layout} {inferTpSize size n : Nat}

/-- The position of a rank's chunk among the `dp * pp` chunks. -/
def chunkOf (layout : Layout) (rank : Nat) : Nat :=
  (layout.rankInfo rank).dpRank * layout.ppSize + (layout.rankInfo rank).ppRank

def shareOf (layout : Layout) (inferTpSize size rank : Nat) : List Nat :=
  blockIdx size (chunkOf layout rank * microDpSize layout inferTpSize +
    rank % microDpSize layout inferTpSize)

def chunkIdx (layout : Layout) (inferTpSize size rank : Nat) : List Nat :=
  blockIdx (microDpSize layout inferTpSize * size) (chunkOf layout rank)

theorem chunkOf_lt {rank : Nat} (inside : rank < layout.worldSize) :
    chunkOf layout rank < layout.dpSize * layout.ppSize := by
  have valid := Layout.valid_rankInfo inside
  calc chunkOf layout rank < ((layout.rankInfo rank).dpRank + 1) * layout.ppSize := by
        rw [Nat.succ_mul]
        exact Nat.add_lt_add_left valid.pp _
    _ ≤ layout.dpSize * layout.ppSize := Nat.mul_le_mul_right _ valid.dp

theorem flatten_stages {rank : Nat} (inside : rank < layout.worldSize) :
    ((List.range layout.ppSize).map (fun pp => chunkIdx layout inferTpSize size
      (layout.globalRank { layout.rankInfo rank with ppRank := pp }))).flatten =
    blockIdx (layout.ppSize * (microDpSize layout inferTpSize * size))
      (layout.rankInfo rank).dpRank := by
  have valid := Layout.valid_rankInfo inside
  rw [← flatten_blockIdx_block]
  congr 1
  apply List.map_congr_left
  intro pp member
  have there : layout.rankInfo (layout.globalRank { layout.rankInfo rank with ppRank := pp }) =
      { layout.rankInfo rank with ppRank := pp } :=
        Layout.rankInfo_globalRank _ ⟨valid.tp, valid.dp, List.mem_range.mp member⟩
  rw [chunkIdx, chunkOf, there]

theorem length_chunkIdx (layout : Layout) (inferTpSize size rank : Nat) :
    (chunkIdx layout inferTpSize size rank).length = microDpSize layout inferTpSize * size := by
  simp [chunkIdx]

theorem chunkIdx_group {rank other : Nat} (same : other / layout.tpSize = rank / layout.tpSize) :
    chunkIdx layout inferTpSize size other = chunkIdx layout inferTpSize size rank := by
  obtain ⟨dp, pp⟩ := Layout.rankInfo_congr same
  rw [chunkIdx, chunkOf, dp, pp]
  rfl

namespace Shares

variable (shares : Shares layout inferTpSize size n)

include shares

theorem micro_dvd : microDpSize layout inferTpSize ∣ layout.tpSize :=
  ⟨inferTpSize, (Nat.div_mul_cancel shares.infer).symm⟩

theorem chunkIdx_inside {rank : Nat} (inside : rank < layout.worldSize) :
    ∀ i ∈ chunkIdx layout inferTpSize size rank, i < n := by
  rw [shares.total, ← Nat.mul_assoc]
  exact blockIdx_inside (chunkOf_lt inside)

theorem shareOf_run {j : Nat} (hj : j < microDpSize layout inferTpSize) (rank : Nat) :
    shareOf layout inferTpSize size
      (rank / microDpSize layout inferTpSize * microDpSize layout inferTpSize + j) =
    blockIdx size (chunkOf layout rank * microDpSize layout inferTpSize + j) := by
  obtain ⟨dp, pp⟩ := Layout.rankInfo_congr (Layout.div_of_run shares.micro_dvd hj rank)
  rw [shareOf, chunkOf, dp, pp, Nat.mul_comm (rank / _), Nat.mul_add_mod, Nat.mod_eq_of_lt hj]
  rfl

theorem shareOf_eq (rank : Nat) : shareOf layout inferTpSize size rank =
    pick (chunkIdx layout inferTpSize size rank)
      (blockIdx size (rank % microDpSize layout inferTpSize)) := by
  rw [chunkIdx, pick_blockIdx (Nat.mod_lt _ shares.micro)]
  rfl

theorem shareOf_inside {rank : Nat} (inside : rank < layout.worldSize) :
    ∀ i ∈ shareOf layout inferTpSize size rank, i < n := by
  intro i member
  rw [shares.shareOf_eq] at member
  obtain ⟨j, _, hj⟩ := List.mem_filterMap.mp member
  exact shares.chunkIdx_inside inside i (List.mem_of_getElem? hj)

theorem flatten_run (rank : Nat) :
    ((List.range (microDpSize layout inferTpSize)).map (fun j => shareOf layout inferTpSize size
      (rank / microDpSize layout inferTpSize * microDpSize layout inferTpSize + j))).flatten =
    chunkIdx layout inferTpSize size rank := by
  rw [List.map_congr_left (fun j member => shares.shareOf_run (List.mem_range.mp member) rank),
    flatten_blockIdx_block]
  rfl

theorem shareOf_whole {rank : Nat} (whole : ¬microDpSize layout inferTpSize > 1) :
    shareOf layout inferTpSize size rank = chunkIdx layout inferTpSize size rank := by
  have one : microDpSize layout inferTpSize = 1 := by
    have positive := shares.micro
    omega
  simp [shareOf, chunkIdx, one, Nat.mod_one]

theorem preprocessData_spec {x : DataProto τ ω μ} (aligned : x.Aligned n) {batch : TensorDict τ}
    (tensors : x.batch = some batch) {rank : Nat} (inside : rank < layout.worldSize) :
    preprocessData layout inferTpSize ((List.range layout.worldSize).map
      (fun rank => x.pickRows (chunkIdx layout inferTpSize size rank))) rank =
      .ok (x.pickRows (shareOf layout inferTpSize size rank)) := by
  have src : rank / layout.tpSize * layout.tpSize / layout.tpSize = rank / layout.tpSize :=
    Nat.mul_div_cancel _ layout.tpPositive
  have within := shares.chunkIdx_inside inside
  have cut : (x.pickRows (chunkIdx layout inferTpSize size rank)).batch =
      some (batch.pickRows (chunkIdx layout inferTpSize size rank)) := by
        simp [DataProto.pickRows, tensors]
  have alignedChunk := aligned.pickRows within
  rw [length_chunkIdx] at alignedChunk
  simp only [preprocessData, pyGet_map_range _ inside,
    pyGet_map_range _ (Layout.lt_of_same_group src inside), chunkIdx_group src, cut,
    broadcastDictTensor_self, ok_bind]
  rw [← cut]
  split
  · have len : (x.pickRows (chunkIdx layout inferTpSize size rank)).len =
        microDpSize layout inferTpSize * size := by
      simp only [DataProto.len, cut]
      rw [TensorDict.batchSize_pickRows (aligned.batch batch tensors ▸ within), length_chunkIdx]
    rw [chunkAt_eq alignedChunk len (Nat.mod_lt _ shares.micro) shares.rows rfl,
      DataProto.pickRows_pickRows aligned within, shares.shareOf_eq]
  · rename_i whole
    rw [shares.shareOf_whole whole]

theorem gatherMicroDp_spec {batch : TensorDict τ} (length : batch.batchSize = n) {rank : Nat}
    (inside : rank < layout.worldSize) :
    gatherMicroDp layout inferTpSize ((List.range layout.worldSize).map (fun rank =>
      (tensorsOnly (batch.pickRows (shareOf layout inferTpSize size rank)) : DataProto τ ω μ)))
        rank =
      .ok (tensorsOnly (batch.pickRows (chunkIdx layout inferTpSize size rank))) := by
  simp only [gatherMicroDp, pyGet_map_range _ inside, ok_bind]
  split
  · rw [gatherBatch_spec (shareOf layout inferTpSize size)
      (by simpa using Nat.pos_iff_ne_zero.mp shares.micro) ?_ inside
      (fun other hother => length ▸ shares.shareOf_inside hother) (by simp [shareOf]), List.map_map]
    · rw [← shares.flatten_run rank]
      rfl
    · intro other member
      obtain ⟨j, hj, rfl⟩ := List.mem_map.mp member
      exact Layout.lt_of_same_group (Layout.div_of_run shares.micro_dvd (List.mem_range.mp hj) rank)
        inside
  · rename_i whole
    rw [shares.shareOf_whole whole]

theorem gatherPp_spec (truthy : μ → Bool) {batch : TensorDict τ}
    (length : batch.batchSize = n) {rank : Nat} (inside : rank < layout.worldSize) :
    gatherPp layout truthy ((List.range layout.worldSize).map (fun rank =>
      (tensorsOnly (batch.pickRows (chunkIdx layout inferTpSize size rank)) : DataProto τ ω μ)))
        rank =
      .ok (tensorsOnly (batch.pickRows
        (blockIdx (layout.ppSize * (microDpSize layout inferTpSize * size))
        (layout.rankInfo rank).dpRank))) := by
  have valid := Layout.valid_rankInfo inside
  have default : (((tensorsOnly (batch.pickRows (chunkIdx layout inferTpSize size rank)) :
    DataProto τ ω μ).metaInfo.get?
      "allgather_pp_output").map truthy).getD true = true := rfl
  simp only [gatherPp, pyGet_map_range _ inside, ok_bind, default, if_true]
  rw [gatherBatch_spec (chunkIdx layout inferTpSize size)
    (by simpa using Nat.pos_iff_ne_zero.mp layout.ppPositive) ?_ inside
    (fun other hother => length ▸ shares.chunkIdx_inside hother) (by simp [length_chunkIdx]),
      List.map_map]
  · rw [← flatten_stages inside]
    rfl
  · intro other member
    obtain ⟨pp, hpp, rfl⟩ := List.mem_map.mp member
    exact Layout.globalRank_lt ⟨valid.tp, valid.dp, List.mem_range.mp hpp⟩

theorem generateSequences_spec (truthy : μ → Bool) {generate : DataProto τ ω μ → Py (TensorDict τ)}
    {x : DataProto τ ω μ} (aligned : x.Aligned n) {tensors : TensorDict τ}
    (present : x.batch = some tensors)
    {batch : TensorDict τ} (length : batch.batchSize = n)
    (each : ∀ idx, idx ≠ [] → (∀ i ∈ idx, i < n) →
      generated generate (x.pickRows idx) = .ok (tensorsOnly (batch.pickRows idx))) :
    generateSequences layout inferTpSize truthy generate ((List.range layout.worldSize).map
      (fun rank => x.pickRows (chunkIdx layout inferTpSize size rank))) =
      .ok ((List.range layout.worldSize).map (fun rank => tensorsOnly (batch.pickRows
        (blockIdx (layout.ppSize * (microDpSize layout inferTpSize * size))
          (layout.rankInfo rank).dpRank)))) := by
  have cut := mapM_ok _ _ (List.range layout.worldSize)
    (fun rank member => shares.preprocessData_spec aligned present (List.mem_range.mp member))
  have run : ((List.range layout.worldSize).map (fun rank =>
    x.pickRows (shareOf layout inferTpSize size rank))).mapM
      (generated generate) = .ok ((List.range layout.worldSize).map
        (fun rank => tensorsOnly (batch.pickRows (shareOf layout inferTpSize size rank)))) := by
    rw [List.mapM_map]
    apply mapM_ok
    intro rank member
    exact each _ (List.ne_nil_of_length_pos (by simpa [shareOf] using shares.rows))
      (shares.shareOf_inside (List.mem_range.mp member))
  have micro := mapM_ok _ _ (List.range layout.worldSize)
    (fun rank member =>
      shares.gatherMicroDp_spec (ω := ω) (μ := μ) length (List.mem_range.mp member))
  have stages := mapM_ok _ _ (List.range layout.worldSize)
    (fun rank member => shares.gatherPp_spec (ω := ω) truthy length (List.mem_range.mp member))
  simp only [generateSequences, cut, run, micro, stages, ok_bind]

end Shares

theorem dispatch_megatronPpAsDp {layout : Layout} {inferTpSize size : Nat} {x : DataProto τ ω μ}
    (aligned : x.Aligned x.len) (positive : 0 < microDpSize layout inferTpSize * size)
    (chunks : x.len = layout.dpSize * layout.ppSize * (microDpSize layout inferTpSize * size)) :
    (megatronPpAsDpProto layout).dispatch [.proto x] = .ok [(List.range layout.worldSize).map
      (fun rank => Arg.proto (x.pickRows (chunkIdx layout inferTpSize size rank)))] := by
  have pieces := DataProto.chunk_eq aligned rfl (Nat.mul_pos layout.dpPositive layout.ppPositive)
    positive chunks
  have split : splitArgs (layout.dpSize * layout.ppSize) [.proto x] =
    .ok [(List.range (layout.ppSize * layout.dpSize)).map
      (fun i => Arg.proto (x.pickRows (blockIdx (microDpSize layout inferTpSize * size) i)))] := by
    rw [Nat.mul_comm layout.ppSize]
    simp [splitArgs, Arg.chunk, pieces]
  simp only [megatronPpAsDpProto, split, ok_bind, dispatchMegatronPpAsDp]
  refine dispatchMegatron_single _ (fun info valid => ?_)
  rw [Nat.mul_comm layout.ppSize]
  have there := chunkOf_lt (Layout.globalRank_lt valid)
  rwa [chunkOf, Layout.rankInfo_globalRank _ valid] at there

theorem megatronPpAsDp_call {layout : Layout} {inferTpSize : Nat} (truthy : μ → Bool)
    {generate : DataProto τ ω μ → Py (TensorDict τ)} {x : DataProto τ ω μ}
    (rowWise : RowWise (generated generate) x) (aligned : x.Aligned x.len) (nonempty : 0 < x.len)
    (tensors : x.batch.isSome = true) (infer : inferTpSize ∣ layout.tpSize)
    (divides : layout.dpSize * layout.ppSize * microDpSize layout inferTpSize ∣ x.len) :
    ∃ y out, generated generate x = .ok y ∧ y.Aligned x.len ∧
      callJoint (megatronPpAsDpProto layout) (generateSequences layout inferTpSize truthy generate)
        (.proto x) = .ok out ∧ out.SameColumns y := by
  obtain ⟨source, present⟩ := Option.isSome_iff_exists.mp tensors
  obtain ⟨size, length⟩ := divides
  have rows : 0 < size := Nat.pos_of_ne_zero (by rintro rfl; simp at length; omega)
  have micro : 0 < microDpSize layout inferTpSize :=
    Nat.pos_of_ne_zero (by intro h; simp [h] at length; omega)
  have shares : Shares layout inferTpSize size x.len :=
    ⟨infer, micro, rows, by rw [length, Nat.mul_assoc, Nat.mul_assoc]⟩
  have chunks : x.len =
      layout.dpSize * layout.ppSize * (microDpSize layout inferTpSize * size) := by
    rw [length, Nat.mul_assoc (layout.dpSize * layout.ppSize)]
  obtain ⟨batch, count, hy, each⟩ := generated_pickRows rowWise
  have alignedY : (tensorsOnly batch : DataProto τ ω μ).Aligned x.len :=
    ⟨by rintro _ ⟨⟩; exact count, by simp [tensorsOnly, Dict.empty]⟩
  have dispatched :=
    @dispatch_megatronPpAsDp _ _ _ layout inferTpSize size x aligned (Nat.mul_pos micro rows) chunks
  have inputs : ([(List.range layout.worldSize).map
      (fun rank => Arg.proto (x.pickRows (chunkIdx layout inferTpSize size rank)))].flatten).mapM
        Arg.materialize =
      .ok ((List.range layout.worldSize).map (fun rank =>
        x.pickRows (chunkIdx layout inferTpSize size rank))) := by
    rw [List.flatten_cons, List.flatten_nil, List.append_nil, List.mapM_map]
    exact mapM_ok _ _ _ (fun _ _ => rfl)
  have same : List.Forall₂ DataProto.SameColumns
      ((List.range layout.worldSize).map (fun rank => (tensorsOnly (batch.pickRows
        (blockIdx (layout.ppSize * (microDpSize layout inferTpSize * size))
          (layout.rankInfo rank).dpRank)) :
          DataProto τ ω μ)))
      ((List.range layout.worldSize).map (fun rank => (tensorsOnly batch : DataProto τ ω μ).pickRows
        (blockIdx (layout.ppSize * (microDpSize layout inferTpSize * size))
          (layout.rankInfo rank).dpRank))) := by
    rw [List.forall₂_map_left_iff, List.forall₂_map_right_iff, List.forall₂_same]
    exact fun _ _ => ⟨rfl, rfl⟩
  obtain ⟨collected, out, hcollected, joined, sameOut⟩ :=
    collected_blocks alignedY shares.total layout.ppPositive same
  refine ⟨tensorsOnly batch, out, hy, alignedY, ?_, sameOut⟩
  rw [callJoint, dispatched]
  simp only [ok_bind, inputs, shares.generateSequences_spec truthy aligned present count each,
    megatronPpAsDpProto, collectMegatronPpAsDp, hcollected, joined]

end Generation

/-- Both Megatron modes return the rows of the whole batch in order, each once. -/
theorem megatron_row_order (layout : Layout) (x : DataProto τ ω μ) (aligned : x.Aligned x.len)
    (nonempty : 0 < x.len) :
    (∀ f, RowWise f x → layout.dpSize ∣ x.len → ∃ y out, f x = .ok y ∧ y.Aligned x.len ∧
      call (megatronComputeProto layout) layout.worldSize (unary f) [.proto x] = .ok out ∧
        out.SameColumns y) ∧
    (∀ inferTpSize truthy generate, RowWise (generated generate) x → x.batch.isSome = true →
      inferTpSize ∣ layout.tpSize →
        layout.dpSize * layout.ppSize * microDpSize layout inferTpSize ∣ x.len →
      ∃ y out, generated generate x = .ok y ∧ y.Aligned x.len ∧
        callJoint (megatronPpAsDpProto layout)
          (generateSequences layout inferTpSize truthy generate) (.proto x) =
          .ok out ∧ out.SameColumns y) :=
  ⟨fun _ rowWise divides => megatronCompute_call rowWise aligned nonempty divides,
    fun _ truthy _ rowWise tensors infer divides =>
      megatronPpAsDp_call truthy rowWise aligned nonempty tensors infer divides⟩

def generateCells (g : τ → τ) (x : DataProto τ ω μ) : Py (TensorDict τ) :=
  DataProto.requireBatch (mapCells g x).batch

theorem generated_generateCells (g : τ → τ) {x : DataProto τ ω μ} {batch : TensorDict τ}
    (present : (mapCells g x).batch = some batch) :
    generated (generateCells g) x = .ok (tensorsOnly batch) := by
  simp only [generated, generateCells, present, DataProto.requireBatch, ok_bind]
  exact DataProto.new_ok (n := batch.batchSize) ⟨by rintro _ ⟨⟩; rfl, by simp [Dict.empty]⟩

theorem rowWise_generateCells (g : τ → τ) {x : DataProto τ ω μ} (aligned : x.Aligned x.len)
    (tensors : x.batch.isSome = true) : RowWise (generated (generateCells g)) x := by
  obtain ⟨y, hy, alignedY, each⟩ := rowWise_mapCells g aligned
  cases Except.ok.inj hy
  obtain ⟨source, present⟩ := Option.isSome_iff_exists.mp tensors
  obtain ⟨batch, hbatch⟩ : ∃ batch, (mapCells g x).batch = some batch := by simp [mapCells, present]
  refine ⟨tensorsOnly batch, generated_generateCells g hbatch,
    ⟨by rintro _ ⟨⟩; exact alignedY.batch batch hbatch, by simp [tensorsOnly, Dict.empty]⟩, ?_⟩
  intro idx some inside
  obtain ⟨z, hz, same⟩ := each idx some inside
  cases Except.ok.inj hz
  have cut : (mapCells g (x.pickRows idx)).batch = Option.some (batch.pickRows idx) := by
    rw [same.batch]
    simp [DataProto.pickRows, hbatch]
  exact ⟨_, generated_generateCells g cut, ⟨rfl, rfl⟩⟩

def cube : Layout := ⟨2, 2, 2, Nat.two_pos, Nat.two_pos, Nat.two_pos⟩

def eightRows : DataProto Nat String Nat where
  batch := some ⟨8, ⟨[("ids", ⟨[], [10, 20, 30, 40, 50, 60, 70, 80]⟩)], by decide⟩, by decide⟩
  nonTensorBatch := ⟨[("uid", ⟨[], ["a", "b", "c", "d", "e", "f", "g", "h"]⟩)], by decide⟩
  metaInfo := .empty

theorem eightRows_aligned : eightRows.Aligned eightRows.len where
  batch := by
    rintro batch ⟨⟩
    rfl
  nonTensorBatch := by decide

theorem megatron_row_order_eightRows :
    (∃ y out, (.ok (mapCells (· + 1) eightRows) : Py _) = .ok y ∧ y.Aligned eightRows.len ∧
      call (megatronComputeProto cube) cube.worldSize (unary (fun x => .ok (mapCells (· + 1) x)))
        [.proto eightRows] = .ok out ∧ out.SameColumns y) ∧
    (∃ y out, generated (generateCells (· + 1)) eightRows = .ok y ∧ y.Aligned eightRows.len ∧
      callJoint (megatronPpAsDpProto cube)
        (generateSequences cube 1 (fun _ => true) (generateCells (· + 1)))
        (.proto eightRows) = .ok out ∧ out.SameColumns y) :=
  have both := megatron_row_order cube eightRows eightRows_aligned (by decide)
  ⟨both.1 _ (rowWise_mapCells (· + 1) eightRows_aligned) (by decide),
    both.2 1 (fun _ => true) _ (rowWise_generateCells (· + 1) eightRows_aligned rfl) rfl
    (by decide) (by decide)⟩

end Verl.SingleController
