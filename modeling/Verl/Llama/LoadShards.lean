import Verl.Llama.Loader
import Verl.Llama.Placement

/-! What the ranks of the model parallel group hold after the loader: every rank its
shard of every weight. -/
namespace Verl.Llama.Loader

open Megatron

variable {α : Type} {job : Job α} {stateDicts : Nat → StateDict α}

theorem copyInto_rect {rows cols : Nat} {target source : Weight α} (positive : 0 < rows)
    (first : Rect rows cols target)
    (second : Rect rows cols source) : copyInto target source = .ok source := by
  rw [copyInto, if_pos]
  rw [shape_eq first positive, shape_eq second positive]

section Broadcasts

variable {rows cols : Nat} (positive : 0 < rows) {tensor : Nat → Option (Weight α)}
  (shapes : ∀ r, job.layout.modelParallelGroup 0 r → ∀ w ∈ tensor r, Rect rows cols w)

include positive shapes

theorem broadcastTensor_joint {name : Text} {weight : Weight α}
    (found : stateDicts 0 name = some weight) (rect : Rect rows cols weight) :
    Spmd.Joint shape (job.layout.modelParallelGroup 0)
      (fun r => broadcastTensor (job.process r) (stateDicts r) (tensor r) name)
      (fun r => (tensor r).map (fun _ => weight)) := by
  have buffer : ∀ r, job.layout.modelParallelGroup 0 r →
      Rect rows cols ((tensor r).getD ((job.process r).empty (rows, cols))) := by
    intro r member
    cases own : tensor r with
    | none => exact Rect.replicate rows cols _
    | some w => exact shapes r member w own
  unfold broadcastTensor
  refine Spmd.Joint.bind (Spmd.Joint.broadcastObject Layout.modelParallelGroup_zero _) ?_
  simp only [if_true, found, Option.map_some, shape_eq rect positive]
  refine Spmd.Joint.bind (Spmd.Joint.lift
    (fun r => if r = 0 then weight else (tensor r).getD ((job.process r).empty (rows, cols))) ?_) ?_
  · intro r member
    by_cases first : r = 0
    · subst first
      simp only [if_true, found]
      exact copyInto_rect positive (buffer 0 member) rect
    · simp only [if_neg first]
  refine Spmd.Joint.bind (Spmd.Joint.broadcastTensor Layout.modelParallelGroup_zero _ ?_) ?_
  · intro r member
    by_cases first : r = 0
    · rw [first]
    · rw [if_neg first, if_pos rfl, shape_eq (buffer r member) positive, shape_eq rect positive]
  · exact Spmd.Joint.pure _

section Chunks

variable (part : Nat → Weight α) (rects : ∀ i < job.layout.tpSize, Rect rows cols (part i))
  {tensorChunk : Nat → Option (List (Weight α))}
  (cut : tensorChunk 0 = some ((List.range job.layout.tpSize).map part))
  (others : ∀ r, r ≠ 0 → tensorChunk r = none)

/-- What the ranks hold before pass `i`: the ranks below `i` have their chunk. -/
def Passed (job : Job α) (rows cols : Nat) (tensor : Nat → Option (Weight α))
    (part : Nat → Weight α) (i : Nat) (state : Nat → Weight α × Option (Weight α)) : Prop :=
  ∀ r, job.layout.modelParallelGroup 0 r → Rect rows cols (state r).1 ∧
    (state r).2 = if (job.layout.rankInfo r).tpRank < i then
      (tensor r).map (fun _ => part (job.layout.rankInfo r).tpRank) else tensor r

include rects cut others

theorem broadcastChunk_joint {i : Nat} (hi : i < job.layout.tpSize)
    {state : Nat → Weight α × Option (Weight α)}
    (passed : Passed job rows cols tensor part i state) :
    ∃ next, Spmd.Joint shape (job.layout.modelParallelGroup 0)
      (fun r => broadcastChunk (job.process r) (tensorChunk r) (state r) i) next ∧
      Passed job rows cols tensor part (i + 1) next := by
  refine ⟨fun r => (part i, if (job.layout.rankInfo r).tpRank < i + 1 then
    (tensor r).map (fun _ => part (job.layout.rankInfo r).tpRank) else tensor r), ?_, fun r _ =>
      ⟨rects i hi, rfl⟩⟩
  unfold broadcastChunk
  refine Spmd.Joint.bind (Spmd.Joint.lift (fun r => if r = 0 then part i else (state r).1) ?_) ?_
  · intro r member
    by_cases first : r = 0
    · subst first
      simp only [cut, pyGet_map_range part hi, ok_bind, if_true]
      exact copyInto_rect positive (passed 0 member).1 (rects i hi)
    · simp only [others r first, if_neg first]
  refine Spmd.Joint.bind (Spmd.Joint.broadcastTensor Layout.modelParallelGroup_zero _ ?_) ?_
  · intro r member
    by_cases first : r = 0
    · rw [first]
    · rw [if_neg first, if_pos rfl, shape_eq (passed r member).1 positive,
        shape_eq (rects i hi) positive]
  refine Spmd.Joint.done (fun r member => ?_)
  have held := (passed r member).2
  by_cases turn : i = (job.layout.rankInfo r).tpRank
  · have waiting : ¬(job.layout.rankInfo r).tpRank < i := by omega
    have served : (job.layout.rankInfo r).tpRank < i + 1 := by omega
    rw [if_neg waiting] at held
    have kept : (tensor r).mapM (fun own => copyInto own (part i)) =
        .ok ((tensor r).map (fun _ => part i)) := by
      cases own : tensor r with
      | none => rfl
      | some w => simp [copyInto_rect positive (shapes r member w own) (rects i hi)]
    simp only [if_pos turn, if_true, held, kept, if_pos served]
    rw [← turn]
    rfl
  · have same : (job.layout.rankInfo r).tpRank < i + 1 ↔ (job.layout.rankInfo r).tpRank < i := by
      omega
    simp only [if_neg turn, if_true, held, same]
    rfl

theorem broadcastChunks_joint :
    Spmd.Joint shape (job.layout.modelParallelGroup 0)
      (fun r => broadcastChunks (job.process r) (tensor r) (tensorChunk r))
      (fun r => (tensor r).map (fun _ => part (job.layout.rankInfo r).tpRank)) := by
  have tp := job.layout.tpPositive
  have first : ((List.range job.layout.tpSize).map part).head? = some (part 0) := by
    obtain ⟨n, hn⟩ := Nat.exists_eq_succ_of_ne_zero (Nat.pos_iff_ne_zero.mp tp)
    rw [hn, List.range_succ_eq_map]
    rfl
  unfold broadcastChunks
  refine Spmd.Joint.bind (Spmd.Joint.broadcastObject Layout.modelParallelGroup_zero _) ?_
  simp only [cut, Option.bind_some, first, Option.map_some, shape_eq (rects 0 tp) positive]
  refine Spmd.Joint.bind (Spmd.Joint.lift (fun r => (job.process r).empty (rows, cols)) ?_) ?_
  · intro r member
    cases own : tensor r with
    | none => rfl
    | some w => simp [shape_eq (shapes r member w own) positive]
  have start : Passed job rows cols tensor part 0
    (fun r => ((job.process r).empty (rows, cols), tensor r)) :=
    fun r _ => ⟨Rect.replicate rows cols _, rfl⟩
  obtain ⟨out, loop, passed⟩ := Spmd.Joint.foldlM (Passed job rows cols tensor part) start
    (fun i hi state held => broadcastChunk_joint positive shapes part rects cut others hi held)
  refine Spmd.Joint.bind loop (Spmd.Joint.done (fun r member => ?_))
  have mine : (job.layout.rankInfo r).tpRank < job.layout.tpSize := Nat.mod_lt _ tp
  rw [(passed r member).2, if_pos mine]
  rfl

end Chunks

end Broadcasts

section Weights

variable (fits : job.config.Fits job.layout.tpSize) (full : (stateDicts 0).Full job.config)

include fits full

theorem vocab_joint {param : Param}
    (there : job.config.paramShape param = some (job.config.vocabSize, job.config.hiddenSize))
    {tensor : Nat → Option (Weight α)}
      (shapes : ∀ r, job.layout.modelParallelGroup 0 r → ∀ w ∈ tensor r,
        Rect (vocabSizeTp job.config job.layout.tpSize) job.config.hiddenSize w) :
    Spmd.Joint shape (job.layout.modelParallelGroup 0)
      (fun r => broadcastTpShardTensor (job.process r) (stateDicts r) (tensor r) param.name .rows)
      (fun r => (tensor r).map (fun _ =>
        vocabShard job.config job.layout.tpSize (stateDicts 0) param
        (job.layout.rankInfo r).tpRank)) := by
  have rect := full.rect there
  simp only [fits.vocab_eq] at rect
  refine broadcastChunks_joint fits.vocabSize_pos shapes _
    (fun i hi => vocabShard_rect fits full there hi) ?_ (fun r other => if_neg other)
  rw [if_pos rfl, full.found there, Option.map_some,
    chunk_rows fits.tp fits.vocabSize_pos rect.rows]
  rfl

variable {layer : Nat} (inside : layer < job.config.numHiddenLayers)
  {tensor : Nat → Option (Weight α)}

include inside

theorem columns_joint {part : LayerParam} {size : Nat}
    (size_eq : part.shape job.config = (job.config.hiddenSize, job.layout.tpSize * size))
    (positive : 0 < size)
    (shapes : ∀ r, job.layout.modelParallelGroup 0 r → ∀ w ∈ tensor r,
      Rect job.config.hiddenSize size w) :
    Spmd.Joint shape (job.layout.modelParallelGroup 0)
      (fun r => broadcastTpShardTensor (job.process r) (stateDicts r) (tensor r)
        (Param.layer layer part).name .columns)
      (fun r => (tensor r).map (fun _ => ((stateDicts 0).weight (.layer layer part)).map
        (block size (job.layout.rankInfo r).tpRank))) := by
  have there : job.config.paramShape (.layer layer part) =
      some (job.config.hiddenSize, job.layout.tpSize * size) := by
    rw [Config.paramShape, if_pos inside, size_eq]
  have rect := full.rect there
  refine broadcastChunks_joint fits.hiddenPositive shapes
    (fun i => ((stateDicts 0).weight (.layer layer part)).map (block size i))
      (fun i hi => rect.columns hi) ?_ (fun r other => if_neg other)
  rw [if_pos rfl, full.found there, Option.map_some,
    chunk_columns fits.tp positive (width_eq rect fits.hiddenPositive)]

theorem gateUp_joint (shapes : ∀ r, job.layout.modelParallelGroup 0 r → ∀ w ∈ tensor r,
      Rect (intermediateSizeTp job.config job.layout.tpSize * 2) job.config.hiddenSize w) :
    Spmd.Joint shape (job.layout.modelParallelGroup 0)
      (fun r => broadcastTpShardTensorGateUp (job.process r) (stateDicts r) (tensor r)
        (Param.layer layer .gateProj).name (Param.layer layer .upProj).name)
      (fun r => (tensor r).map (fun _ =>
        (layerShard job.config job.layout.tpSize (stateDicts 0) layer
          (job.layout.rankInfo r).tpRank).gateUpProj)) := by
  have there : ∀ part : LayerParam,
    job.config.paramShape (.layer layer part) = some (part.shape job.config) :=
    fun part => if_pos inside
  refine Spmd.Joint.bind
    (Spmd.Joint.lift (fun r => if r = 0 then some ((List.range job.layout.tpSize).map
    (gateUpPart job.config job.layout.tpSize ((stateDicts 0).weight (.layer layer .gateProj))
      ((stateDicts 0).weight (.layer layer .upProj)))) else none) ?_) ?_
  · intro r _
    by_cases first : r = 0
    · subst first
      simp only [if_true, StateDict.getItem_some (full.found (there .gateProj)),
        StateDict.getItem_some (full.found (there .upProj)), ok_bind,
        fits.chunkGateUp_eq (full.rect (there .gateProj)) (full.rect (there .upProj))]
      rfl
    · simp only [if_neg first]
  · exact broadcastChunks_joint (Nat.mul_pos fits.intermediateSize_pos (by decide)) shapes _
      (fun i hi => (layerShard_shape fits full inside hi).gateUpProj) (if_pos rfl) (fun r other =>
        if_neg other)

theorem qkv_joint (shapes : ∀ r, job.layout.modelParallelGroup 0 r → ∀ w ∈ tensor r,
      Rect (totalSize job.config job.layout.tpSize) job.config.hiddenSize w) :
    Spmd.Joint shape (job.layout.modelParallelGroup 0)
      (fun r => broadcastTpShardTensorQkv (job.process r) (stateDicts r) (tensor r)
        (Param.layer layer .qProj).name
        (Param.layer layer .kProj).name (Param.layer layer .vProj).name)
      (fun r => (tensor r).map (fun _ =>
        (layerShard job.config job.layout.tpSize (stateDicts 0) layer
          (job.layout.rankInfo r).tpRank).qkvProj)) := by
  have there : ∀ part : LayerParam,
    job.config.paramShape (.layer layer part) = some (part.shape job.config) :=
    fun part => if_pos inside
  refine Spmd.Joint.bind
    (Spmd.Joint.lift (fun r => if r = 0 then some ((List.range job.layout.tpSize).map
    (qkvPart job.config job.layout.tpSize ((stateDicts 0).weight (.layer layer .qProj))
      ((stateDicts 0).weight (.layer layer .kProj)) ((stateDicts 0).weight (.layer layer .vProj))))
        else none) ?_) ?_
  · intro r _
    by_cases first : r = 0
    · subst first
      have q := full.found (there .qProj)
      have k := full.found (there .kProj)
      have v := full.found (there .vProj)
      have cut := fits.chunkQkv_eq (full.rect (there .qProj)) (full.rect (there .kProj))
        (full.rect (there .vProj))
      simp only [if_true, StateDict.getItem_some q, StateDict.getItem_some k,
        StateDict.getItem_some v, q, k, v, Option.isSome_some, Bool.and_self,
        pyAssert_true, ok_bind, cut]
      rfl
    · simp only [if_neg first]
  · exact broadcastChunks_joint (Nat.add_pos_left fits.qSize_pos _) shapes _
      (fun i hi => (layerShard_shape fits full inside hi).qkvProj) (if_pos rfl) (fun r other =>
        if_neg other)

end Weights

section Layers

theorem handed_rect {rows cols : Nat} {owner : Nat → Prop} [DecidablePred owner]
    {tensor : Nat → Weight α}
    (rect : ∀ r, job.layout.modelParallelGroup 0 r → Rect rows cols (tensor r)) :
    ∀ r, job.layout.modelParallelGroup 0 r → ∀ w ∈ (if owner r then some (tensor r) else none),
      Rect rows cols w := by
  intro r member w handed
  split at handed
  · cases handed
    exact rect r member
  · cases handed

variable (fits : job.config.Fits job.layout.tpSize) (full : (stateDicts 0).Full job.config)
  (vpp : 0 < job.virtualPpSize)
  (divides : job.layout.ppSize * job.virtualPpSize ∣ job.config.numHiddenLayers)

include fits full vpp divides

theorem loadLayer_joint (progress : Progress) {layer : Nat}
    (inside : layer < job.config.numHiddenLayers) {models : Nat → List (ModelChunk α)}
    (holds : AllHold job (stateDicts 0) { progress with layers := layer } models) :
    ∃ next, Spmd.Joint shape (job.layout.modelParallelGroup 0)
      (fun r => loadLayer (job.process r) (stateDicts r) (models r) layer) next ∧
      AllHold job (stateDicts 0) { progress with layers := layer + 1 } next := by
  obtain ⟨place, placed, hpp, hv, hl, same⟩ := layerMap_eq divides vpp job.layout.ppPositive inside
  obtain ⟨model, hmodel⟩ := model_at holds.sized hv
  obtain ⟨syncLayer, hlayer⟩ := layer_at holds.sized hmodel hl
  have there : ∀ part : LayerParam,
    job.config.paramShape (.layer layer part) = some (part.shape job.config) :=
    fun part => if_pos inside
  have shaped : ∀ r, job.layout.modelParallelGroup 0 r →
    LayerShape job.config job.layout.tpSize (syncLayer r) :=
    fun r member => ((holds r member).each _ _ (hmodel r member)).built.layers
      _ (List.mem_of_getElem? (hlayer r member))
  refine ⟨?_, ?_, ?_⟩
  rotate_left
  · refine Spmd.Joint.bind (Spmd.Joint.lift (fun _ => place) (fun _ _ => placed)) ?_
    refine Spmd.Joint.bind
      (Spmd.Joint.lift model (fun r member => pyGet_ok_iff.mpr (hmodel r member))) ?_
    refine Spmd.Joint.bind
      (Spmd.Joint.lift syncLayer (fun r member => pyGet_ok_iff.mpr (hlayer r member))) ?_
    refine Spmd.Joint.bind (broadcastTensor_joint Nat.one_pos
      (handed_rect (fun r member => (shaped r member).inputLayernorm))
      (full.found (there .inputLayernorm)) (full.rect (there .inputLayernorm))) ?_
    refine Spmd.Joint.bind
      (qkv_joint fits full inside (handed_rect (fun r member => (shaped r member).qkvProj))) ?_
    refine Spmd.Joint.bind (columns_joint fits full inside fits.oProj_shape fits.qSize_pos
      (handed_rect (fun r member => (shaped r member).oProj))) ?_
    refine Spmd.Joint.bind (broadcastTensor_joint Nat.one_pos
      (handed_rect (fun r member => (shaped r member).postAttentionLayernorm))
      (full.found (there .postAttentionLayernorm)) (full.rect (there .postAttentionLayernorm))) ?_
    refine Spmd.Joint.bind (gateUp_joint fits full inside
      (handed_rect (fun r member => (shaped r member).gateUpProj))) ?_
    refine Spmd.Joint.bind
      (columns_joint fits full inside fits.downProj_shape fits.intermediateSize_pos
      (handed_rect (fun r member => (shaped r member).downProj))) ?_
    exact Spmd.Joint.pure _
  · intro r member
    have valid := Layout.valid_rankInfo member.1
    by_cases owner : place.ppRank = (job.layout.rankInfo r).ppRank
    · simp only [if_pos owner, Option.map_some, Option.getD_some]
      have here : job.layerOffset (job.layout.rankInfo r) place.virtualPpRank +
          place.layerIdx = layer := by
        rw [Job.layerOffset, ← owner]
        exact same
      refine (holds r member).set (((holds r member).each _ _ (hmodel r member)).load here
        (layerShard_shape fits full inside valid.tp)) ?_
      intro u other different held
      exact held.skipElsewhere vpp divides hpp hl same valid.pp (fun _ => different)
    · simp only [if_neg owner, Option.map_none, Option.getD_none]
      have skipped : ∀ u (other : ModelChunk α),
          other.Holds job (stateDicts 0) { progress with layers := layer }
          (job.layout.rankInfo r) u →
          other.Holds job (stateDicts 0) { progress with layers := layer + 1 }
            (job.layout.rankInfo r) u := by
        intro u other held
        exact held.skipElsewhere vpp divides hpp hl same valid.pp (fun mine => absurd mine owner)
      obtain ⟨bound, sync⟩ := List.getElem?_eq_some_iff.mp (hlayer r member)
      have unchanged : (model r).layers.set place.layerIdx (syncLayer r) = (model r).layers := by
        rw [← sync, List.set_getElem_self]
      rw [unchanged]
      exact (holds r member).set (skipped _ _ ((holds r member).each _ _ (hmodel r member)))
        (fun u other _ => skipped u other)

end Layers

section Whole

variable (fits : job.config.Fits job.layout.tpSize) (full : (stateDicts 0).Full job.config)
  (vpp : 0 < job.virtualPpSize) {progress : Progress} {models : Nat → List (ModelChunk α)}
  (holds : AllHold job (stateDicts 0) progress models)

theorem handed_or {c : Prop} [Decidable c] {own : Option (Weight α)} (there : own.isSome ↔ c)
    (w : Weight α) :
    ((if c then own else none).map (fun _ => w)).or own = own.map (fun _ => w) := by
  by_cases here : c
  · obtain ⟨v, rfl⟩ := Option.isSome_iff_exists.mp (there.mpr here)
    simp [here]
  · have absent : own = none := by
      rw [← Option.not_isSome_iff_eq_none]
      exact fun h => here (there.mp h)
    simp [absent]

include fits full vpp holds

theorem loadEmbeddings_joint :
    ∃ next, Spmd.Joint shape (job.layout.modelParallelGroup 0)
      (fun r => loadEmbeddings (job.process r) (stateDicts r) (models r)) next ∧
      AllHold job (stateDicts 0) { progress with embedTokens := true } next := by
  obtain ⟨model, hmodel⟩ := model_at holds.sized vpp
  have held := fun r member => (holds r member).each _ _ (hmodel r member)
  have there : ∀ r, job.layout.modelParallelGroup 0 r →
      ((model r).embedTokens.isSome ↔ (job.layout.rankInfo r).ppRank = 0) :=
    fun r member => (held r member).built.preProcess.trans (and_iff_left rfl)
  refine ⟨_, Spmd.Joint.bind
    (Spmd.Joint.lift model (fun r member => pyGet_ok_iff.mpr (hmodel r member)))
    (Spmd.Joint.bind (Spmd.Joint.lift _ (fun r member => handed_ok (there r member) _))
      (Spmd.Joint.bind (vocab_joint fits full rfl ?_) (Spmd.Joint.pure _))), ?_⟩
  · intro r member w handed
    split at handed
    · exact (held r member).built.embedTokens w handed
    · cases handed
  · intro r member
    simp only [handed_or (there r member)]
    have valid := Layout.valid_rankInfo member.1
    exact (holds r member).set
      ((held r member).loadEmbed rfl (vocabShard_rect fits full rfl valid.tp))
      (fun u other different heldOther => heldOther.skipEmbed different)

omit fits in
theorem loadNorm_joint :
    ∃ next, Spmd.Joint shape (job.layout.modelParallelGroup 0)
      (fun r => loadNorm (job.process r) (stateDicts r) (models r)) next ∧
      AllHold job (stateDicts 0) { progress with norm := true } next := by
  obtain ⟨model, hmodel, last⟩ := last_at holds.sized vpp
  have held := fun r member => (holds r member).each _ _ (hmodel r member)
  have there : job.config.paramShape .norm = some (1, job.config.hiddenSize) := rfl
  refine ⟨_, Spmd.Joint.bind (Spmd.Joint.lift model last)
    (Spmd.Joint.bind (broadcastTensor_joint Nat.one_pos
    (fun r member => (held r member).built.norm) (full.found there) (full.rect there))
      (Spmd.Joint.pure _)), ?_⟩
  intro r member
  simp only [(holds r member).count]
  exact (holds r member).set ((held r member).loadNorm rfl (full.rect there))
    (fun u other different heldOther => heldOther.skipNorm (by omega))

theorem loadLmHead_joint :
    ∃ next, Spmd.Joint shape (job.layout.modelParallelGroup 0)
      (fun r => loadLmHead (job.process r) (stateDicts r) false (models r)) next ∧
      AllHold job (stateDicts 0) { progress with lmHead := true } next := by
  obtain ⟨model, hmodel, last⟩ := last_at holds.sized vpp
  have held := fun r member => (holds r member).each _ _ (hmodel r member)
  have there : ∀ r, job.layout.modelParallelGroup 0 r →
      ((model r).lmHead.isSome ↔ (job.layout.rankInfo r).ppRank + 1 = job.layout.ppSize) :=
    fun r member => (held r member).built.headPostProcess.trans
      (and_iff_left (Nat.sub_add_cancel vpp))
  have head : job.config.paramShape .lmHead = some (job.config.vocabSize, job.config.hiddenSize) :=
    rfl
  refine ⟨_, Spmd.Joint.bind (Spmd.Joint.lift model last)
    (Spmd.Joint.bind (Spmd.Joint.lift _ (fun r member => handed_ok (there r member) _))
      (Spmd.Joint.bind (vocab_joint fits full head ?_) (Spmd.Joint.pure _))), ?_⟩
  · intro r member w handed
    split at handed
    · exact (held r member).built.lmHead w handed
    · cases handed
  · intro r member
    simp only [handed_or (there r member), (holds r member).count]
    have valid := Layout.valid_rankInfo member.1
    exact (holds r member).set
      ((held r member).loadHead rfl (vocabShard_rect fits full rfl valid.tp))
      (fun u other different heldOther => heldOther.skipHead (by omega))

end Whole

theorem loadModelParallel_joint (fits : job.config.Fits job.layout.tpSize)
    (full : (stateDicts 0).Full job.config) (vpp : 0 < job.virtualPpSize)
    (divides : job.layout.ppSize * job.virtualPpSize ∣ job.config.numHiddenLayers)
    {models : Nat → List (ModelChunk α)}
    (built : ∀ r, job.layout.modelParallelGroup 0 r → Built job r (models r)) :
    ∃ next, Spmd.Joint shape (job.layout.modelParallelGroup 0)
      (fun r => loadModelParallel (job.process r) (stateDicts r) false (models r)) next ∧
      AllHold job (stateDicts 0) ⟨true, job.config.numHiddenLayers, true, true⟩ next := by
  have start : AllHold job (stateDicts 0) ⟨false, 0, false, false⟩ models :=
    fun r member => (built r member).holds (stateDicts 0)
  obtain ⟨embedded, embedding, held⟩ := loadEmbeddings_joint fits full vpp start
  obtain ⟨layered, layers, heldLayers⟩ := Spmd.Joint.foldlM
    (fun layer models => AllHold job (stateDicts 0) ⟨true, layer, false, false⟩ models) held
    (fun layer inside _ held =>
      loadLayer_joint fits full vpp divides ⟨true, 0, false, false⟩ inside held)
  obtain ⟨normed, norm, heldNorm⟩ := loadNorm_joint full vpp heldLayers
  obtain ⟨headed, head, heldHead⟩ := loadLmHead_joint fits full vpp heldNorm
  refine ⟨headed, ?_, heldHead⟩
  refine Spmd.Joint.bind
    (Spmd.Joint.lift (fun _ => ()) (fun r member => (start r member).sized.checkModels r divides))
    ?_
  have whole : Spmd.Joint shape (job.layout.modelParallelGroup 0)
      (fun r => do
        let embedded ← loadEmbeddings (job.process r) (stateDicts r) (models r)
        let layered ← (List.range job.config.numHiddenLayers).foldlM
          (loadLayer (job.process r) (stateDicts r)) embedded
        let normed ← loadNorm (job.process r) (stateDicts r) layered
        loadLmHead (job.process r) (stateDicts r) false normed) headed := by
    refine Spmd.Joint.bind embedding ?_
    refine Spmd.Joint.bind layers ?_
    exact Spmd.Joint.bind norm head
  exact whole.congr (fun r member => if_pos member.2)

end Verl.Llama.Loader
