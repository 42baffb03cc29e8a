import Verl.Llama.RoundTrip

/-! Which savers run to their end. Up to the head all ranks meet in the same broadcasts,
whatever their modules hold. The head of a value model is asked for with `getattr` on
every rank, and the stages without one leave its broadcast out. -/
namespace Verl.Llama

open Megatron

variable {α : Type} {job : Job α}

/-- `ParallelLlamaForValueRmPadPP._init_head` makes a head of one row on every rank. -/
def headRows (job : Job α) (isValueModel : Bool) : Nat :=
  if isValueModel then 1 else vocabSizeTp job.config job.layout.tpSize

/-- A module as the constructor builds it, with the head of its class. -/
structure ModelChunk.BuiltWithHead (job : Job α) (isValueModel : Bool) (info : RankInfo)
    (virtualPpRank : Nat) (model : ModelChunk α) : Prop where
  body : ∃ lmHead, ({ model with lmHead } : ModelChunk α).Built job info virtualPpRank
  headPostProcess : model.lmHead.isSome ↔
    info.ppRank + 1 = job.layout.ppSize ∧ virtualPpRank + 1 = job.virtualPpSize
  lmHead : ∀ w ∈ model.lmHead, Rect (headRows job isValueModel) job.config.hiddenSize w

structure BuiltWithHead (job : Job α) (isValueModel : Bool) (rank : Nat)
    (models : List (ModelChunk α)) : Prop where
  count : models.length = job.virtualPpSize
  each : ∀ v (model : ModelChunk α), models[v]? = some model →
    model.BuiltWithHead job isValueModel (job.layout.rankInfo rank) v

theorem BuiltWithHead.sized {isValueModel : Bool} {rank : Nat} {models : List (ModelChunk α)}
    (built : BuiltWithHead job isValueModel rank models) : Sized job models where
  count := built.count
  numLayers := by
    intro model member
    obtain ⟨v, found⟩ := List.mem_iff_getElem?.mp member
    obtain ⟨_, body⟩ := (built.each v model found).body
    exact body.numLayers

theorem Config.Fits.headRows_pos (fits : job.config.Fits job.layout.tpSize) (isValueModel : Bool) :
    0 < headRows job isValueModel := by
  cases isValueModel with
  | true => exact Nat.one_pos
  | false => exact fits.vocabSize_pos

section Defined

/-! Putting shards together needs their shapes only. -/

variable {rows cols : Nat} {ws : List (Weight α)} (rects : ∀ w ∈ ws, Rect rows cols w)

include rects

theorem Rect.flatten : Rect (ws.length * rows) cols ws.flatten := by
  induction ws with
  | nil => exact ⟨by simp, by simp⟩
  | cons w ws ih =>
    have whole := (rects w List.mem_cons_self).append
      (ih (fun v member => rects v (List.mem_cons_of_mem w member)))
    rwa [List.length_cons, Nat.succ_mul, Nat.add_comm, List.flatten_cons]

theorem concat_rows_defined (nonempty : ws ≠ []) (positive : 0 < rows) :
    concat .rows ws = .ok ws.flatten :=
  concat_rows cols nonempty (fun w member => width_eq (rects w member) positive)

theorem concat_columns_defined (nonempty : ws ≠ []) : ∃ full, concat .columns ws = .ok full := by
  cases ws with
  | nil => contradiction
  | cons first rest =>
    have all : rest.all (fun w => w.length == first.length) = true := by
      simp only [List.all_eq_true, beq_iff_eq]
      intro w member
      rw [(rects w (List.mem_cons_of_mem first member)).rows, (rects first List.mem_cons_self).rows]
    exact ⟨_, if_pos all⟩

omit rects in
theorem Config.Fits.mergeGateUp_defined {config : Config} {tpSize : Nat} (fits : config.Fits tpSize)
    {full : Weight α} (rect : Rect (tpSize * (intermediateSizeTp config tpSize * 2)) cols full) :
    ∃ gate up, mergeGateUp config tpSize full = .ok (gate, up) := by
  have positive := fits.intermediateSize_pos
  generalize hsize : intermediateSizeTp config tpSize = size at rect positive
  have part : ∀ i < tpSize,
      Rect (size * 2) cols (slice (size * 2 * i) (size * 2 * (i + 1)) full) := by
    intro i hi
    rw [Nat.mul_comm _ i, Nat.mul_comm _ (i + 1)]
    exact rect.block hi
  have nonempty : ∀ f : Nat → Weight α, (List.range tpSize).map f ≠ [] := by
    intro f
    simpa using Nat.pos_iff_ne_zero.mp fits.tp
  have gates : ∀ w ∈ (List.range tpSize).map (fun i => (slice (size * 2 * i) (size * 2 * (i + 1)) full).take size),
      Rect size cols w := by
    intro w member
    obtain ⟨i, hi, rfl⟩ := List.mem_map.mp member
    have own := part i (List.mem_range.mp hi)
    exact ⟨by rw [List.length_take, own.rows]; omega, fun row inside =>
      own.cols row (List.mem_of_mem_take inside)⟩
  have ups : ∀ w ∈ (List.range tpSize).map (fun i => (slice (size * 2 * i) (size * 2 * (i + 1)) full).drop size),
      Rect size cols w := by
    intro w member
    obtain ⟨i, hi, rfl⟩ := List.mem_map.mp member
    have own := part i (List.mem_range.mp hi)
    exact ⟨by rw [List.length_drop, own.rows]; omega, fun row inside =>
      own.cols row (List.mem_of_mem_drop inside)⟩
  simp only [mergeGateUp, hsize, concat_rows_defined gates (nonempty _) positive,
    concat_rows_defined ups (nonempty _) positive, ok_bind, pure_eq_ok]
  exact ⟨_, _, rfl⟩

omit rects in
theorem Config.Fits.mergeQkv_defined {config : Config} {tpSize : Nat} (fits : config.Fits tpSize)
    {full : Weight α} (rect : Rect (tpSize * totalSize config tpSize) cols full) :
    ∃ q k v, mergeQkv config tpSize full = .ok (q, k, v) := by
  have kept : 0 ∈ keptRanks config tpSize := by
    unfold keptRanks
    split
    · exact List.mem_range.mpr fits.tp
    · exact List.mem_filter.mpr ⟨List.mem_range.mpr fits.tp, by simp⟩
  have nonempty : ∀ f : Nat → Weight α, (keptRanks config tpSize).map f ≠ [] := by
    intro f empty
    rw [List.map_eq_nil_iff] at empty
    exact List.not_mem_nil (empty ▸ kept)
  have some : ∀ f : Nat → Weight α, (List.range tpSize).map f ≠ [] := by
    intro f
    simpa using Nat.pos_iff_ne_zero.mp fits.tp
  have cut : ∀ ranks : List Nat, (∀ i ∈ ranks, i < tpSize) → ∀ start stop, start ≤ stop →
      stop ≤ totalSize config tpSize →
        ∀ w ∈ ranks.map (fun i => slice start stop (slice (i * totalSize config tpSize)
        ((i + 1) * totalSize config tpSize) full)), Rect (stop - start) cols w := by
    intro ranks inside start stop order below w member
    obtain ⟨i, hi, rfl⟩ := List.mem_map.mp member
    exact Rect.slice (rect.block (inside i hi)) order below
  have qSize := fits.qSize_pos
  have kvSize := fits.kvSize_pos
  have total : totalSize config tpSize = qSizeTp config tpSize + 2 * kvSizeTp config tpSize := rfl
  have all := fun i (member : i ∈ List.range tpSize) => List.mem_range.mp member
  have qs := concat_rows_defined
    (cut (List.range tpSize) all 0 (qSizeTp config tpSize) (by omega) (by omega)) (some _)
    (by omega)
  have ks := concat_rows_defined
    (cut (keptRanks config tpSize) (fun _ => mem_keptRanks) (qSizeTp config tpSize)
    (qSizeTp config tpSize + kvSizeTp config tpSize) (by omega) (by omega)) (nonempty _) (by omega)
  have vs := concat_rows_defined (cut (keptRanks config tpSize) (fun _ => mem_keptRanks)
    (qSizeTp config tpSize + kvSizeTp config tpSize) (totalSize config tpSize) (by omega)
      (by omega)) (nonempty _)
    (by omega)
  simp only [mergeQkv, qs, ks, vs, ok_bind, pure_eq_ok]
  exact ⟨_, _, _, rfl⟩

end Defined

namespace Saver

def Adds (params : List Param) (before after : Nat → StateDict α) : Prop :=
  ∀ param, (after 0 param.name).isSome ↔ param ∈ params ∨ (before 0 param.name).isSome

theorem Adds.trans {ps qs : List Param} {before middle after : Nat → StateDict α}
    (first : Adds ps before middle)
    (second : Adds qs middle after) : Adds (ps ++ qs) before after := by
  intro param
  rw [second param, first param, List.mem_append]
  exact or_left_comm.trans or_assoc.symm

theorem isSome_written {params : List Param} {entries : List (Text × Weight α)} (dict : StateDict α)
    (names : entries.map Prod.fst = params.map Param.name) (param : Param) :
    (entries.foldl (fun dict e => dict.set e.1 e.2) dict param.name).isSome ↔
      param ∈ params ∨ (dict param.name).isSome := by
  induction entries generalizing params dict with
  | nil =>
    cases params with
    | nil => simp
    | cons p ps => cases names
  | cons e es ih =>
    cases params with
    | nil => cases names
    | cons p ps =>
      obtain ⟨key, rest⟩ := List.cons.inj names
      rw [List.foldl_cons, ih _ rest, key, StateDict.set_name, List.mem_cons]
      by_cases same : param = p
      · simp [same]
      · simp [same]

theorem written_adds {params : List Param} {entries : List (Text × Weight α)}
    (stateDicts : Nat → StateDict α) (names : entries.map Prod.fst = params.map Param.name) :
    Adds params stateDicts (written entries stateDicts) := by
  intro param
  rw [written, if_pos rfl]
  exact isSome_written (stateDicts 0) names param

section Gather

variable {rows cols srcPpRank : Nat} (positive : 0 < rows) (stage : srcPpRank < job.layout.ppSize)
  (tensor : Nat → Option (Weight α)) (stateDicts : Nat → StateDict α)

include positive stage

theorem broadcastTensor_adds (param : Param)
    (found : ∃ w, tensor (job.layout.globalRank ⟨0, 0, srcPpRank⟩) = some w ∧ Rect rows cols w) :
    ∃ next, Spmd.Joint shape (job.layout.modelParallelGroup 0)
      (fun r => broadcastTensor (job.process r) (tensor r) param.name srcPpRank (stateDicts r))
        next ∧
      Adds [param] stateDicts next := by
  obtain ⟨w, own, rect⟩ := found
  exact ⟨_, broadcastTensor_joint positive stage param.name stateDicts own rect,
    written_adds stateDicts rfl⟩

variable (found : ∀ i < job.layout.tpSize,
  ∃ w, tensor (job.layout.globalRank ⟨i, 0, srcPpRank⟩) = some w ∧ Rect rows cols w)

include found

theorem gatherShards_adds {put : List (Weight α) → Py (List (Text × Weight α))}
    {params : List Param}
    (puts : ∀ ws, ws.length = job.layout.tpSize → (∀ w ∈ ws, Rect rows cols w) →
      ∃ entries, put ws = .ok entries ∧ entries.map Prod.fst = params.map Param.name) :
    ∃ next, Spmd.Joint shape (job.layout.modelParallelGroup 0)
      (fun r => gatherShards (job.process r) (tensor r) srcPpRank (stateDicts r) put) next ∧
      Adds params stateDicts next := by
  have parts : ∀ i, ∃ w, i < job.layout.tpSize →
      tensor (job.layout.globalRank ⟨i, 0, srcPpRank⟩) = some w ∧ Rect rows cols w := by
    intro i
    by_cases hi : i < job.layout.tpSize
    · obtain ⟨w, own⟩ := found i hi
      exact ⟨w, fun _ => own⟩
    · exact ⟨[], fun h => absurd h hi⟩
  choose part own using parts
  obtain ⟨entries, put_ok, names⟩ := puts ((List.range job.layout.tpSize).map part) (by simp) (by
    intro w member
    obtain ⟨i, hi, rfl⟩ := List.mem_map.mp member
    exact (own i (List.mem_range.mp hi)).2)
  exact ⟨_, gatherShards_joint positive stage (fun i hi => (own i hi).2) (fun i hi => (own i hi).1)
    stateDicts put_ok, written_adds stateDicts names⟩

omit positive stage found in
theorem nonempty_shards {ws : List (Weight α)} (length : ws.length = job.layout.tpSize) :
    ws ≠ [] := by
  intro empty
  rw [empty] at length
  exact Nat.ne_of_lt job.layout.tpPositive length

theorem broadcastTpShardTensor_adds (param : Param) (dim : Dim) :
    ∃ next, Spmd.Joint shape (job.layout.modelParallelGroup 0)
      (fun r => broadcastTpShardTensor (job.process r) (tensor r) param.name srcPpRank dim
        (stateDicts r)) next ∧
      Adds [param] stateDicts next := by
  refine gatherShards_adds positive stage tensor stateDicts found (fun ws length rects => ?_)
  have defined : ∃ full, concat dim ws = .ok full := by
    cases dim with
    | rows => exact ⟨_, concat_rows_defined rects (nonempty_shards length) positive⟩
    | columns => exact concat_columns_defined rects (nonempty_shards length)
  obtain ⟨full, hfull⟩ := defined
  exact ⟨[(param.name, full)], by simp only [hfull, ok_bind, pure_eq_ok], rfl⟩

end Gather

section Layer

variable (fits : job.config.Fits job.layout.tpSize) {srcPpRank : Nat}
  (stage : srcPpRank < job.layout.ppSize) (tensor : Nat → Option (Weight α))
  (stateDicts : Nat → StateDict α) (layer : Nat)

include fits stage

theorem broadcastTpShardTensorGateUp_adds (found : ∀ i < job.layout.tpSize,
      ∃ w, tensor (job.layout.globalRank ⟨i, 0, srcPpRank⟩) = some w ∧
        Rect (intermediateSizeTp job.config job.layout.tpSize * 2) job.config.hiddenSize w) :
    ∃ next, Spmd.Joint shape (job.layout.modelParallelGroup 0)
      (fun r => broadcastTpShardTensorGateUp (job.process r) (tensor r)
        (Param.layer layer .gateProj).name
        (Param.layer layer .upProj).name srcPpRank (stateDicts r)) next ∧
      Adds [.layer layer .gateProj, .layer layer .upProj] stateDicts next := by
  have positive : 0 < intermediateSizeTp job.config job.layout.tpSize * 2 :=
    Nat.mul_pos fits.intermediateSize_pos Nat.two_pos
  dsimp only [broadcastTpShardTensorGateUp]
  refine gatherShards_adds positive stage tensor stateDicts found (fun ws length rects => ?_)
  obtain ⟨gate, up, merged⟩ := fits.mergeGateUp_defined (length ▸ Rect.flatten rects)
  refine ⟨[((Param.layer layer .gateProj).name, gate), ((Param.layer layer .upProj).name, up)], ?_,
    rfl⟩
  simp only [concat_rows_defined rects (nonempty_shards length) positive, ok_bind,
    merged, pure_eq_ok]

theorem broadcastTpShardTensorQkv_adds (found : ∀ i < job.layout.tpSize,
      ∃ w, tensor (job.layout.globalRank ⟨i, 0, srcPpRank⟩) = some w ∧
        Rect (totalSize job.config job.layout.tpSize) job.config.hiddenSize w) :
    ∃ next, Spmd.Joint shape (job.layout.modelParallelGroup 0)
      (fun r => broadcastTpShardTensorQkv (job.process r) (tensor r) (Param.layer layer .qProj).name
        (Param.layer layer .kProj).name (Param.layer layer .vProj).name srcPpRank
          (stateDicts r)) next ∧
      Adds [.layer layer .qProj, .layer layer .kProj, .layer layer .vProj] stateDicts next := by
  have positive : 0 < totalSize job.config job.layout.tpSize := Nat.add_pos_left fits.qSize_pos _
  dsimp only [broadcastTpShardTensorQkv]
  refine gatherShards_adds positive stage tensor stateDicts found (fun ws length rects => ?_)
  obtain ⟨q, k, v, merged⟩ := fits.mergeQkv_defined (length ▸ Rect.flatten rects)
  refine ⟨[((Param.layer layer .qProj).name, q), ((Param.layer layer .kProj).name, k),
    ((Param.layer layer .vProj).name, v)], ?_, rfl⟩
  simp only [concat_rows_defined rects (nonempty_shards length) positive, ok_bind,
    merged, pure_eq_ok]

end Layer

def Present (progress : Progress) (stateDicts : Nat → StateDict α) : Prop :=
  ∀ param : Param, (stateDicts 0 param.name).isSome ↔ merged progress param

theorem Present.adds {before after : Progress} {stateDicts next : Nat → StateDict α}
    {params : List Param} (present : Present before stateDicts) (adds : Adds params stateDicts next)
    (further : ∀ param, merged after param ↔ param ∈ params ∨ merged before param) :
    Present after next := by
  intro param
  rw [adds param, present param, further param]

section Whole

variable (fits : job.config.Fits job.layout.tpSize) (vpp : 0 < job.virtualPpSize)
  {isValueModel : Bool} {models : Nat → List (ModelChunk α)}
  (built : ∀ r, job.layout.modelParallelGroup 0 r → BuiltWithHead job isValueModel r (models r))
  (progress : Progress) {stateDicts : Nat → StateDict α}

include fits vpp built

theorem mergeLayer_adds
    (divides : job.layout.ppSize * job.virtualPpSize ∣ job.config.numHiddenLayers) {layer : Nat}
    (inside : layer < job.config.numHiddenLayers) :
    ∃ next, Spmd.Joint shape (job.layout.modelParallelGroup 0)
      (fun r => mergeLayer (job.process r) (models r) (stateDicts r) layer) next ∧
      Adds (LayerParam.all.map (Param.layer layer)) stateDicts next := by
  have sized := fun r member => (built r member).sized
  obtain ⟨place, placed, hpp, hv, hl, -⟩ := layerMap_eq divides vpp job.layout.ppPositive inside
  obtain ⟨model, hmodel⟩ := model_at sized hv
  obtain ⟨syncLayer, hlayer⟩ := layer_at sized hmodel hl
  have shaped : ∀ i < job.layout.tpSize,
      LayerShape job.config job.layout.tpSize
      (syncLayer (job.layout.globalRank ⟨i, 0, place.ppRank⟩)) := by
    intro i hi
    have member := source_mem hpp hi
    obtain ⟨_, body⟩ := ((built _ member).each _ _ (hmodel _ member)).body
    exact body.layers _ (List.mem_of_getElem? (hlayer _ member))
  have tp := job.layout.tpPositive
  obtain ⟨_, inputLayernorm, one⟩ :=
    broadcastTensor_adds Nat.one_pos hpp (fun r => some (syncLayer r).inputLayernorm)
    stateDicts (.layer layer .inputLayernorm) ⟨_, rfl, (shaped 0 tp).inputLayernorm⟩
  obtain ⟨_, qkv, two⟩ :=
    broadcastTpShardTensorQkv_adds fits hpp (fun r => some (syncLayer r).qkvProj) _ layer
    (fun i hi => ⟨_, rfl, (shaped i hi).qkvProj⟩)
  obtain ⟨_, oProj, three⟩ :=
    broadcastTpShardTensor_adds fits.hiddenPositive hpp (fun r => some (syncLayer r).oProj) _
    (fun i hi => ⟨_, rfl, (shaped i hi).oProj⟩) (.layer layer .oProj) .columns
  obtain ⟨_, postAttention, four⟩ := broadcastTensor_adds Nat.one_pos hpp
    (fun r => some (syncLayer r).postAttentionLayernorm) _ (.layer layer .postAttentionLayernorm)
    ⟨_, rfl, (shaped 0 tp).postAttentionLayernorm⟩
  obtain ⟨_, gateUp, five⟩ :=
    broadcastTpShardTensorGateUp_adds fits hpp (fun r => some (syncLayer r).gateUpProj) _ layer
    (fun i hi => ⟨_, rfl, (shaped i hi).gateUpProj⟩)
  obtain ⟨next, downProj, six⟩ := broadcastTpShardTensor_adds fits.hiddenPositive hpp
    (fun r => some (syncLayer r).downProj) _ (fun i hi => ⟨_, rfl, (shaped i hi).downProj⟩)
      (.layer layer .downProj) .columns
  refine ⟨next, ?_, ((((one.trans two).trans three).trans four).trans five).trans six⟩
  refine Spmd.Joint.bind (Spmd.Joint.lift (fun _ => place) (fun _ _ => placed)) ?_
  refine Spmd.Joint.bind
    (Spmd.Joint.lift model (fun r member => pyGet_ok_iff.mpr (hmodel r member))) ?_
  refine Spmd.Joint.bind
    (Spmd.Joint.lift syncLayer (fun r member => pyGet_ok_iff.mpr (hlayer r member))) ?_
  refine Spmd.Joint.bind inputLayernorm ?_
  refine Spmd.Joint.bind qkv ?_
  refine Spmd.Joint.bind oProj ?_
  refine Spmd.Joint.bind postAttention ?_
  exact Spmd.Joint.bind gateUp downProj

theorem mergeEmbeddings_adds :
    ∃ next, Spmd.Joint shape (job.layout.modelParallelGroup 0)
      (fun r => mergeEmbeddings (job.process r) (models r) (stateDicts r)) next ∧
      Adds [.embedTokens] stateDicts next := by
  obtain ⟨model, hmodel⟩ := model_at (fun r member => (built r member).sized) vpp
  have there : ∀ r, job.layout.modelParallelGroup 0 r →
      ((model r).embedTokens.isSome ↔ (job.layout.rankInfo r).ppRank = 0) := by
    intro r member
    obtain ⟨_, body⟩ := ((built r member).each _ _ (hmodel r member)).body
    exact body.preProcess.trans (and_iff_left rfl)
  obtain ⟨next, joint, adds⟩ := broadcastTpShardTensor_adds fits.vocabSize_pos job.layout.ppPositive
    (fun r => if (job.layout.rankInfo r).ppRank = 0 then (model r).embedTokens
      else none) stateDicts (by
      intro i hi
      have member := source_mem job.layout.ppPositive hi
      have info := Layout.rankInfo_globalRank ⟨i, 0, 0⟩ ⟨hi, job.layout.dpPositive,
        job.layout.ppPositive⟩
      have first : (job.layout.rankInfo (job.layout.globalRank ⟨i, 0, 0⟩)).ppRank = 0 := by
        rw [info]
      obtain ⟨w, own⟩ := Option.isSome_iff_exists.mp ((there _ member).mpr first)
      obtain ⟨_, body⟩ := ((built _ member).each _ _ (hmodel _ member)).body
      exact ⟨w, (if_pos first).trans own, body.embedTokens w own⟩) .embedTokens .rows
  refine ⟨next, ?_, adds⟩
  refine Spmd.Joint.bind
    (Spmd.Joint.lift model (fun r member => pyGet_ok_iff.mpr (hmodel r member))) ?_
  exact Spmd.Joint.bind (Spmd.Joint.lift _ (fun r member => handed_ok (there r member) _)) joint

omit fits in
theorem mergeNorm_adds :
    ∃ next, Spmd.Joint shape (job.layout.modelParallelGroup 0)
      (fun r => mergeNorm (job.process r) (models r) (stateDicts r)) next ∧
        Adds [.norm] stateDicts next := by
  obtain ⟨model, hmodel, last⟩ := last_at (fun r member => (built r member).sized) vpp
  have stage : job.layout.ppSize - 1 < job.layout.ppSize :=
    Nat.sub_lt job.layout.ppPositive Nat.one_pos
  have member := source_mem stage job.layout.tpPositive
  have info := Layout.rankInfo_globalRank ⟨0, 0, job.layout.ppSize - 1⟩ ⟨job.layout.tpPositive,
    job.layout.dpPositive, stage⟩
  obtain ⟨_, body⟩ := ((built _ member).each _ _ (hmodel _ member)).body
  obtain ⟨w, own⟩ := Option.isSome_iff_exists.mp (body.normPostProcess.mpr
    ⟨by rw [info]; exact Nat.sub_add_cancel job.layout.ppPositive, Nat.sub_add_cancel vpp⟩)
  obtain ⟨next, joint, adds⟩ :=
    broadcastTensor_adds Nat.one_pos stage (fun r => (model r).norm) stateDicts .norm
    ⟨w, own, body.norm w own⟩
  exact ⟨next, Spmd.Joint.bind (Spmd.Joint.lift model last) joint, adds⟩

omit fits in
theorem head_there {model : Nat → ModelChunk α}
    (hmodel : ∀ r, job.layout.modelParallelGroup 0 r →
      (models r)[job.virtualPpSize - 1]? = some (model r)) :
    ∀ r, job.layout.modelParallelGroup 0 r →
      ((model r).lmHead.isSome ↔ (job.layout.rankInfo r).ppRank = job.layout.ppSize - 1) := by
  intro r member
  have positive := job.layout.ppPositive
  rw [((built r member).each _ _ (hmodel r member)).headPostProcess]
  omega

theorem mergeLmHead_adds (meets : isValueModel = false ∨ job.layout.ppSize = 1) :
    ∃ next, Spmd.Joint shape (job.layout.modelParallelGroup 0)
      (fun r => mergeLmHead (job.process r) isValueModel (models r) (stateDicts r)) next ∧
      Adds [.lmHead] stateDicts next := by
  obtain ⟨model, hmodel, last⟩ := last_at (fun r member => (built r member).sized) vpp
  have there := head_there vpp built hmodel
  have stage : job.layout.ppSize - 1 < job.layout.ppSize :=
    Nat.sub_lt job.layout.ppPositive Nat.one_pos
  let handed : Nat → Option (Weight α) := fun r =>
    if (job.layout.rankInfo r).ppRank = job.layout.ppSize - 1 then (model r).lmHead else none
  have shards : ∀ i < job.layout.tpSize, ∃ w,
    handed (job.layout.globalRank ⟨i, 0, job.layout.ppSize - 1⟩) = some w ∧
      Rect (headRows job isValueModel) job.config.hiddenSize w := by
    intro i hi
    have member := source_mem stage hi
    have info := Layout.rankInfo_globalRank ⟨i, 0, job.layout.ppSize - 1⟩ ⟨hi,
      job.layout.dpPositive, stage⟩
    have final : (job.layout.rankInfo
      (job.layout.globalRank ⟨i, 0, job.layout.ppSize - 1⟩)).ppRank =
        job.layout.ppSize - 1 := by rw [info]
    obtain ⟨w, own⟩ := Option.isSome_iff_exists.mp ((there _ member).mpr final)
    exact ⟨w, (if_pos final).trans own, ((built _ member).each _ _ (hmodel _ member)).lmHead w own⟩
  have positive := fits.headRows_pos isValueModel
  cases isValueModel with
  | false =>
    obtain ⟨next, joint, adds⟩ :=
      broadcastTpShardTensor_adds positive stage handed stateDicts shards .lmHead .rows
    refine ⟨next, Spmd.Joint.bind (Spmd.Joint.lift model last) ?_, adds⟩
    exact Spmd.Joint.bind (Spmd.Joint.lift _ (fun r member => handed_ok (there r member) _)) joint
  | true =>
    have single : job.layout.ppSize = 1 := meets.resolve_left (Bool.noConfusion ·)
    obtain ⟨next, joint, adds⟩ := broadcastTensor_adds positive stage handed stateDicts .lmHead
      (shards 0 job.layout.tpPositive)
    refine ⟨next, Spmd.Joint.bind (Spmd.Joint.lift model last) ?_, adds⟩
    have head : Spmd.Joint shape (job.layout.modelParallelGroup 0)
        (fun r => mergeValueHead (job.process r) (model r).lmHead Param.lmHead.name (stateDicts r))
          next := by
      refine joint.congr (fun r member => ?_)
      have only : (job.layout.rankInfo r).ppRank = job.layout.ppSize - 1 := by
        have below := (Layout.valid_rankInfo member.1).pp
        omega
      obtain ⟨w, own⟩ := Option.isSome_iff_exists.mp ((there r member).mpr only)
      simp only [handed, mergeValueHead, if_pos only, own]
    refine Spmd.Joint.bind head (Spmd.Joint.done (fun r member => ?_))
    obtain ⟨_, body⟩ := ((built r member).each _ _ (hmodel r member)).body
    have noReward : (model r).rewardHead = none := body.rewardHead
    rw [noReward]
    rfl

omit fits in
theorem mergeLmHead_blocks (value : isValueModel = true) (stages : 1 < job.layout.ppSize)
    (out : Nat → StateDict α) :
    ¬Spmd.Joint shape (job.layout.modelParallelGroup 0)
      (fun r => mergeLmHead (job.process r) isValueModel (models r) (stateDicts r)) out := by
  obtain ⟨model, hmodel, last⟩ := last_at (fun r member => (built r member).sized) vpp
  have there := head_there vpp built hmodel
  intro joint
  have stage : job.layout.ppSize - 1 < job.layout.ppSize :=
    Nat.sub_lt job.layout.ppPositive Nat.one_pos
  have first : job.layout.modelParallelGroup 0 0 := Layout.modelParallelGroup_zero
  have second := source_mem stage job.layout.tpPositive
  have noReward : ∀ r, job.layout.modelParallelGroup 0 r → (model r).rewardHead = none := by
    intro r member
    obtain ⟨_, body⟩ := ((built r member).each _ _ (hmodel r member)).body
    exact body.rewardHead
  have noHead : (model 0).lmHead = none := by
    have zero : (job.layout.rankInfo 0).ppRank = 0 := by simp [Layout.rankInfo]
    rw [← Option.not_isSome_iff_eq_none, there 0 first, zero]
    omega
  obtain ⟨w, own⟩ := Option.isSome_iff_exists.mp ((there _ second).mpr (by
    rw [Layout.rankInfo_globalRank ⟨0, 0, job.layout.ppSize - 1⟩ ⟨job.layout.tpPositive,
      job.layout.dpPositive, stage⟩]))
  refine Spmd.Joint.blocked first ⟨stateDicts 0, ?_⟩ second ?_ joint
  · simp only [mergeLmHead, last 0 first, value, if_true, Spmd.lift_ok, Spmd.return_bind, noHead,
      noReward 0 first, mergeValueHead, Spmd.pure_eq]
  · simp only [mergeLmHead, last _ second, value, if_true, Spmd.lift_ok, Spmd.return_bind, own,
      mergeValueHead]
    exact ⟨_, _, _, rfl⟩

theorem merges_to_head
    (divides : job.layout.ppSize * job.virtualPpSize ∣ job.config.numHiddenLayers) :
    ∃ embedded layered normed : Nat → StateDict α,
      Spmd.Joint shape (job.layout.modelParallelGroup 0)
        (fun r => mergeEmbeddings (job.process r) (models r) StateDict.empty) embedded ∧
      Spmd.Joint shape (job.layout.modelParallelGroup 0)
        (fun r => (List.range job.config.numHiddenLayers).foldlM
          (mergeLayer (job.process r) (models r)) (embedded r))
        layered ∧
      Spmd.Joint shape (job.layout.modelParallelGroup 0)
        (fun r => mergeNorm (job.process r) (models r) (layered r)) normed ∧
      Present ⟨true, job.config.numHiddenLayers, true, false⟩ normed := by
  have start : Present ⟨false, 0, false, false⟩ (fun _ => (StateDict.empty : StateDict α)) := by
    intro param
    cases param <;> simp [merged, StateDict.empty]
  obtain ⟨embedded, embedding, addsEmbed⟩ := mergeEmbeddings_adds fits vpp built
  have hasEmbed : Present ⟨true, 0, false, false⟩ embedded := start.adds addsEmbed (by
    intro param
    cases param <;> simp [merged])
  obtain ⟨layered, layers, hasLayers⟩ :=
    Spmd.Joint.foldlM (fun layer dicts => Present ⟨true, layer, false, false⟩ dicts)
    hasEmbed (by
      intro layer inside state has
      obtain ⟨next, joint, adds⟩ := mergeLayer_adds fits vpp built divides inside
      refine ⟨next, joint, has.adds adds (fun param => ?_)⟩
      cases param with
      | layer index part =>
        have known : part ∈ LayerParam.all := by cases part <;> decide
        simp [merged, known]
        omega
      | _ => simp [merged])
  obtain ⟨normed, norm, addsNorm⟩ := mergeNorm_adds vpp built
  refine ⟨embedded, layered, normed, embedding, layers, norm,
    hasLayers.adds addsNorm (fun param => ?_)⟩
  cases param <;> simp [merged]

end Whole

end Saver

/-- All ranks of the saver meet in every broadcast, and rank 0 gets every parameter. -/
def MergesAll (job : Job α) (isValueModel : Bool) (models : Nat → List (ModelChunk α)) : Prop :=
  ∃ merged, Merges job isValueModel models merged ∧
    ∀ param, (job.config.paramShape param).isSome → (merged 0 param.name).isSome

section Merges

variable (fits : job.config.Fits job.layout.tpSize) (vpp : 0 < job.virtualPpSize)
  (divides : job.layout.ppSize * job.virtualPpSize ∣ job.config.numHiddenLayers)
  {isValueModel : Bool} {models : Nat → List (ModelChunk α)}
  (built : ∀ r < job.layout.worldSize, BuiltWithHead job isValueModel r (models r))

include fits vpp divides built

theorem value_head_blocks (value : isValueModel = true) (stages : 1 < job.layout.ppSize) :
    ¬MergesAll job isValueModel models := by
  have group : ∀ r, job.layout.modelParallelGroup 0 r →
    BuiltWithHead job isValueModel r (models r) :=
    fun r member => built r member.1
  obtain ⟨embedded, layered, normed, embedding, layers, norm, -⟩ :=
    Saver.merges_to_head fits vpp group divides
  rintro ⟨merged, merges, -⟩
  have whole := merges 0 job.layout.dpPositive
  have checked : Spmd.Joint shape (job.layout.modelParallelGroup 0)
      (fun r => (Spmd.lift ((job.process r).checkModels (models r)) : Program α Unit))
        (fun _ => ()) :=
    Spmd.Joint.lift _ (fun r member => (group r member).sized.checkModels r divides)
  have body := (checked.rest whole).congr (fun r member => (if_pos member.2).symm)
  exact Saver.mergeLmHead_blocks vpp group value stages merged
    (norm.rest (layers.rest (embedding.rest body)))

theorem merges_all (meets : isValueModel = false ∨ job.layout.ppSize = 1) :
    MergesAll job isValueModel models := by
  have group : ∀ r, job.layout.modelParallelGroup 0 r →
    BuiltWithHead job isValueModel r (models r) :=
    fun r member => built r member.1
  obtain ⟨embedded, layered, normed, embedding, layers, norm, present⟩ :=
    Saver.merges_to_head fits vpp group divides
  obtain ⟨headed, head, addsHead⟩ := Saver.mergeLmHead_adds fits vpp group meets
  have joint := Saver.parts_joint (fun r member => (group r member).sized) divides embedding
    layers norm head
  obtain ⟨merged, merges, same⟩ :=
    merges_of_group (fun r inside => (built r inside).sized) divides joint
  refine ⟨merged, merges, fun param there => ?_⟩
  rw [same, addsHead param, present param]
  cases param with
  | layer index part =>
    have inside : index < job.config.numHiddenLayers := by
      by_contra outside
      simp [Config.paramShape, outside] at there
    simp [Saver.merged, inside]
  | rewardHead => cases there
  | _ => simp [Saver.merged]

/-- The saver completes with all parameters unless a value model is spread over several stages. -/
theorem merges_all_iff : MergesAll job isValueModel models ↔
    isValueModel = false ∨ job.layout.ppSize = 1 := by
  constructor
  · intro all
    by_contra neither
    obtain ⟨value, several⟩ := not_or.mp neither
    have positive := job.layout.ppPositive
    exact value_head_blocks fits vpp divides built ((Bool.not_eq_false _).mp value) (by omega) all
  · exact merges_all fits vpp divides built

end Merges

def initModelsWithHead (job : Job α) (isValueModel : Bool) (rank : Nat) : List (ModelChunk α) :=
  (initModels job rank).map (fun model => { model with
    lmHead := model.lmHead.map (fun _ =>
      List.replicate (headRows job isValueModel)
        (List.replicate job.config.hiddenSize (job.garbage rank))) })

theorem built_initModelsWithHead (job : Job α) (isValueModel : Bool) (rank : Nat) :
    BuiltWithHead job isValueModel rank (initModelsWithHead job isValueModel rank) where
  count := by rw [initModelsWithHead, List.length_map, (built_initModels job rank).count]
  each := by
    intro v model found
    simp only [initModelsWithHead, List.getElem?_map, Option.map_eq_some_iff] at found
    obtain ⟨causal, hcausal, rfl⟩ := found
    have body := (built_initModels job rank).each v causal hcausal
    refine ⟨⟨causal.lmHead, body⟩, ?_, ?_⟩
    · rw [Option.isSome_map]
      exact body.headPostProcess
    · intro w member
      rw [eq_of_replace member]
      exact Rect.replicate _ _ _

/-- A value model over two stages does not come to its end. -/
theorem value_model_blocks_tinyJob : ¬MergesAll tinyJob true (initModelsWithHead tinyJob true) := by
  have fits : tinyJob.config.Fits tinyJob.layout.tpSize := by
    constructor <;> decide
  exact value_head_blocks fits (by decide) (by decide)
    (fun r _ => built_initModelsWithHead tinyJob true r) rfl (by decide)

theorem merges_all_iff_tinyJob : MergesAll tinyJob false (initModelsWithHead tinyJob false) := by
  have fits : tinyJob.config.Fits tinyJob.layout.tpSize := by
    constructor <;> decide
  exact (merges_all_iff fits (by decide) (by decide)
    (fun r _ => built_initModelsWithHead tinyJob false r)).mpr (.inl rfl)

end Verl.Llama
