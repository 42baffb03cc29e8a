import Verl.Llama.RoundTrip
import Verl.ShardingManager.ModuleParams

/-! `MegatronVLLMShardingManager`: the shards of the training ranks of a micro data
parallel group are put together to the shard of an inference rank. -/
namespace Verl.ShardingManager

open Llama

variable {α : Type}

structure LayerNameMapping where
  qkvLayerName : Text
  gateProjLayerName : Text

def layerNameMap : LayerNameMapping := ⟨"qkv".toList, "gate_up".toList⟩

def splitQkv (qSize kvSize : Nat) (w : Weight α) : Py (Weight α × Weight α × Weight α) :=
  if qSize + kvSize + kvSize = w.length then
    .ok (slice 0 qSize w, slice qSize (qSize + kvSize) w,
      slice (qSize + kvSize) (qSize + kvSize + kvSize) w)
  else .error (.runtime
    "split_with_sizes expects split_sizes to sum exactly to the size of the dimension")

def chunkInTwo (w : Weight α) : Py (Weight α × Weight α) :=
  match chunk .rows 2 w with
  | [gate, up] => .ok (gate, up)
  | _ => .error (.value "not enough values to unpack")

def concatQkv (config : Config) (inferParams : List (Weight α)) : Py (Weight α) := do
  let remainder ← pyMod config.numAttentionHeads config.numKeyValueHeads
  pyAssert (remainder == 0)
    "model_config.num_attention_heads % model_config.num_key_value_heads == 0"
  let numQPerKv ← pyFloorDiv config.numAttentionHeads config.numKeyValueHeads
  let first ← pyGet inferParams 0
  pyAssert (first.length % (numQPerKv + 2) == 0)
    "infer_params[0].shape[0] % (num_q_per_kv + 2) == 0"
  let kvSizePerTp := first.length / (numQPerKv + 2)
  let parts ← inferParams.mapM (splitQkv (kvSizePerTp * numQPerKv) kvSizePerTp)
  let q ← concat .rows (parts.map (fun part => part.1))
  let k ← concat .rows (parts.map (fun part => part.2.1))
  let v ← concat .rows (parts.map (fun part => part.2.2))
  concat .rows [q, k, v]

def concatGateUp (inferParams : List (Weight α)) : Py (Weight α) := do
  let parts ← inferParams.mapM chunkInTwo
  let gate ← concat .rows (parts.map (fun part => part.1))
  let up ← concat .rows (parts.map (fun part => part.2))
  concat .rows [gate, up]

def defaultTpConcatFn (layerNameMapping : LayerNameMapping) (config : Config) (name : Text)
    (partitionDim : Dim) (inferParams : List (Weight α)) : Py (Weight α) :=
  if layerNameMapping.qkvLayerName <:+: name then concatQkv config inferParams
  else if layerNameMapping.gateProjLayerName <:+: name then concatGateUp inferParams
  else concat partitionDim inferParams

section Names

theorem not_inside_of_notMem {c : Char} {part text : Text} (member : c ∈ part) (absent : c ∉ text) :
    ¬part <:+: text :=
  fun inside => absent (inside.subset member)

theorem notMem_layer_name {c : Char} (letter : c.isDigit = false)
    (front : c ∉ "model.layers.".toList) (dot : c ≠ '.')
    {part : LayerModule} (absent : c ∉ part.name) (index : Nat) :
    c ∉ (ModuleParam.layer index part).name := by
  intro member
  rw [ModuleParam.layer_name] at member
  rcases List.mem_append.mp member with inFront | rest
  · exact front inFront
  rcases List.mem_append.mp rest with digit | afterDot
  · exact Text.notMem_ofNat letter index digit
  rcases List.mem_cons.mp afterDot with isDot | inPart
  · exact dot isDot
  · exact absent inPart

theorem inside_layer_name {part : LayerModule} {name : Text} (inside : name <:+: part.name)
    (index : Nat) :
    name <:+: (ModuleParam.layer index part).name := by
  have last : part.name <:+ (ModuleParam.layer index part).name :=
    ((List.suffix_cons _ _).trans (List.suffix_append _ _)).trans (List.suffix_append _ _)
  exact inside.trans last.isInfix

theorem qkv_infix_iff (param : ModuleParam) :
    layerNameMap.qkvLayerName <:+: param.name ↔ ∃ index, param = .layer index .qkvProj := by
  cases param with
  | layer index part =>
    by_cases qkv : part = .qkvProj
    · subst qkv
      exact iff_of_true (inside_layer_name (by decide) index) ⟨index, rfl⟩
    · have absent : 'q' ∉ part.name := by
        revert qkv
        cases part <;> decide
      exact iff_of_false
        (not_inside_of_notMem (by decide)
        (notMem_layer_name (by decide) (by decide) (by decide) absent index))
        (by rintro ⟨_, same⟩; cases same; exact qkv rfl)
  | _ => exact iff_of_false (by decide) (by rintro ⟨_, same⟩; cases same)

theorem gateUp_infix_iff {param : ModuleParam} (parallel : param.partitionDim.isSome) :
    layerNameMap.gateProjLayerName <:+: param.name ↔ ∃ index, param = .layer index .gateUpProj := by
  cases param with
  | layer index part =>
    by_cases gateUp : part = .gateUpProj
    · subst gateUp
      exact iff_of_true (inside_layer_name (by decide) index) ⟨index, rfl⟩
    · have absent : 'u' ∉ part.name := by
        cases part <;> first | decide | exact absurd rfl gateUp | cases parallel
      exact iff_of_false
        (not_inside_of_notMem (by decide)
        (notMem_layer_name (by decide) (by decide) (by decide) absent index))
        (by rintro ⟨_, same⟩; cases same; exact gateUp rfl)
  | _ => exact iff_of_false (by decide) (by rintro ⟨_, same⟩; cases same)

end Names

section Split

variable {a b c : Weight α}

theorem chunkInTwo_append {size : Nat} (positive : 0 < size) (first : a.length = size)
    (second : b.length = size) :
    chunkInTwo (a ++ b) = .ok (a, b) := by
  have length : (a ++ b).length = 2 * size := by
    rw [List.length_append]
    omega
  have halves : chunk .rows 2 (a ++ b) = [a, b] := by
    rw [chunk_rows Nat.two_pos positive length, blocks_succ, blocks_succ, List.take_left' first,
      List.drop_left' first, List.take_of_length_le (Nat.le_of_eq second)]
    rfl
  rw [chunkInTwo, halves]

theorem splitQkv_append {qSize kvSize : Nat} (first : a.length = qSize) (second : b.length = kvSize)
    (third : c.length = kvSize) : splitQkv qSize kvSize (a ++ b ++ c) = .ok (a, b, c) := by
  have whole : qSize + kvSize + kvSize = (a ++ b ++ c).length := by
    simp only [List.length_append]
    omega
  have front : (a ++ b).length = qSize + kvSize := by
    rw [List.length_append]
    omega
  have q : slice 0 qSize (a ++ b ++ c) = a := by
    rw [slice, List.append_assoc]
    exact List.take_left' first
  have k : slice qSize (qSize + kvSize) (a ++ b ++ c) = b := by
    rw [slice, List.append_assoc, List.drop_left' first, Nat.add_sub_cancel_left]
    exact List.take_left' second
  have v : slice (qSize + kvSize) (qSize + kvSize + kvSize) (a ++ b ++ c) = c := by
    rw [slice, List.drop_left' front, Nat.add_sub_cancel_left]
    exact List.take_of_length_le (Nat.le_of_eq third)
  rw [splitQkv, if_pos whole, q, k, v]

end Split

section Regroup

/-! `count` training ranks for an inference rank: `tp = infer_tp * count`. -/

variable {inferTpSize count g : Nat} (hg : g < inferTpSize) (positive : 0 < count)

include hg

theorem run_inside : (g + 1) * count ≤ inferTpSize * count := Nat.mul_le_mul_right count hg

theorem rank_inside {j : Nat} (hj : j < count) : g * count + j < inferTpSize * count := by
  have room := Nat.mul_le_mul_right count hg
  rw [Nat.succ_mul] at room
  omega

include positive

theorem concat_run {size cols : Nat} {w : Weight α}
    (rect : Rect (inferTpSize * count * size) cols w) (some : 0 < size) :
    concat .rows ((List.range count).map (fun j => block size (g * count + j) w)) =
      .ok (block (count * size) g w) := by
  rw [concat_rows cols, flatten_run]
  · simpa using Nat.pos_iff_ne_zero.mp positive
  · intro v member
    obtain ⟨j, hj, rfl⟩ := List.mem_map.mp member
    exact width_eq (rect.block (rank_inside hg (List.mem_range.mp hj))) some

omit hg in
theorem concat_run_columns {size : Nat} (w : Weight α) :
    concat .columns ((List.range count).map (fun j => w.map (block size (g * count + j)))) =
      .ok (w.map (block (count * size) g)) := by
  rw [concat_columns_map w _ positive]
  simp only [flatten_run]

end Regroup

section Sizes

variable {config : Config} {inferTpSize count : Nat} (fits : config.Fits (inferTpSize * count))
  (kv : inferTpSize * count ∣ config.numKeyValueHeads)

include fits

theorem infer_pos : 0 < inferTpSize := Nat.pos_of_mul_pos_right fits.tp

theorem count_pos : 0 < count := Nat.pos_of_mul_pos_left fits.tp

theorem cut_further {whole infer train : Nat} (coarse : whole = inferTpSize * infer)
    (fine : whole = inferTpSize * count * train) : infer = count * train := by
  refine Nat.eq_of_mul_eq_mul_left (infer_pos fits) ?_
  rw [← coarse, fine, Nat.mul_assoc]

include kv

theorem fits_infer : config.Fits inferTpSize where
  tp := infer_pos fits
  hidden := fits.hidden
  hiddenPositive := fits.hiddenPositive
  heads := Nat.dvd_trans (Nat.dvd_mul_right _ _) fits.heads
  kvPositive := fits.kvPositive
  kv := .inl (Nat.dvd_trans (Nat.dvd_mul_right _ _) kv)
  intermediatePositive := fits.intermediatePositive
  intermediate := Nat.dvd_trans (Nat.dvd_mul_right _ _) fits.intermediate
  vocabPositive := fits.vocabPositive
  vocab := Nat.dvd_trans (Nat.dvd_mul_right _ _) fits.vocab

theorem qSizeTp_infer : qSizeTp config inferTpSize = count * qSizeTp config (inferTpSize * count) :=
  cut_further fits (fits_infer fits kv).hidden_eq fits.hidden_eq

theorem intermediateSizeTp_infer :
    intermediateSizeTp config inferTpSize =
      count * intermediateSizeTp config (inferTpSize * count) :=
  cut_further fits (fits_infer fits kv).intermediate_eq fits.intermediate_eq

theorem vocabSizeTp_infer :
    vocabSizeTp config inferTpSize = count * vocabSizeTp config (inferTpSize * count) :=
  cut_further fits (fits_infer fits kv).vocab_eq fits.vocab_eq

theorem enough_train : config.numKeyValueHeads ≥ inferTpSize * count :=
  Nat.le_of_dvd fits.kvPositive kv

theorem enough_infer : config.numKeyValueHeads ≥ inferTpSize :=
  Nat.le_trans (Nat.le_mul_of_pos_right _ (count_pos fits)) (enough_train fits kv)

theorem kvSizeTp_infer :
    kvSizeTp config inferTpSize = count * kvSizeTp config (inferTpSize * count) :=
  cut_further fits ((fits_infer fits kv).kv_even (enough_infer fits kv))
    (fits.kv_even (enough_train fits kv))

omit kv in
theorem qSizeTp_ratio (kv : inferTpSize * count ∣ config.numKeyValueHeads)
    (ratio : config.numKeyValueHeads ∣ config.numAttentionHeads) :
    qSizeTp config (inferTpSize * count) =
      kvSizeTp config (inferTpSize * count) *
        (config.numAttentionHeads / config.numKeyValueHeads) := by
  refine Nat.eq_of_mul_eq_mul_left fits.tp ?_
  have perHead : config.numAttentionHeads * config.hiddenSizePerHead = config.hiddenSize :=
    Nat.mul_div_cancel' fits.hidden
  rw [← fits.hidden_eq, ← Nat.mul_assoc, ← fits.kv_even (enough_train fits kv), Nat.mul_assoc,
    Nat.mul_div_cancel' ratio, Nat.mul_comm, perHead]

omit fits kv in
theorem qkvPart_even {tpSize : Nat} (enough : config.numKeyValueHeads ≥ tpSize)
    (q k v : Weight α) (i : Nat) :
    qkvPart config tpSize q k v i = block (qSizeTp config tpSize) i q ++
      block (kvSizeTp config tpSize) i k ++ block (kvSizeTp config tpSize) i v := by
  simp only [qkvPart, kvStart, kvStop, if_pos enough]
  rfl

omit fits kv in
theorem gateUpPart_blocks (tpSize : Nat) (gate up : Weight α) (i : Nat) :
    gateUpPart config tpSize gate up i =
      block (intermediateSizeTp config tpSize) i gate ++
        block (intermediateSizeTp config tpSize) i up := rfl

end Sizes

section Concat

variable {config : Config} {inferTpSize count g : Nat} (fits : config.Fits (inferTpSize * count))
  (kv : inferTpSize * count ∣ config.numKeyValueHeads) (hg : g < inferTpSize)

include fits kv hg

theorem concatGateUp_eq {gate up : Weight α}
    (hgate : Rect config.intermediateSize config.hiddenSize gate)
    (hup : Rect config.intermediateSize config.hiddenSize up) :
    concatGateUp ((List.range count).map (fun j =>
      gateUpPart config (inferTpSize * count) gate up (g * count + j))) =
      .ok (gateUpPart config inferTpSize gate up g) := by
  have positive := fits.intermediateSize_pos
  have some := count_pos fits
  have rectGate := hgate
  have rectUp := hup
  rw [fits.intermediate_eq] at rectGate rectUp
  have inside : ∀ j ∈ List.range count, g * count + j < inferTpSize * count :=
    fun j member => rank_inside hg (List.mem_range.mp member)
  have parts := mapM_map_ok (f := chunkInTwo) (List.range count) (fun j member =>
    chunkInTwo_append positive (rectGate.block (inside j member)).rows
      (rectUp.block (inside j member)).rows)
  have widths : ∀ w ∈ [block (intermediateSizeTp config inferTpSize) g gate,
      block (intermediateSizeTp config inferTpSize) g up], width w = config.hiddenSize := by
    have bigger := (fits_infer fits kv).intermediateSize_pos
    rw [(fits_infer fits kv).intermediate_eq] at hgate hup
    simp only [List.forall_mem_cons, List.not_mem_nil, false_implies, implies_true, and_true]
    exact ⟨width_eq (hgate.block hg) bigger, width_eq (hup.block hg) bigger⟩
  rw [intermediateSizeTp_infer fits kv] at widths
  simp only [concatGateUp, gateUpPart_blocks, parts, ok_bind, List.map_map, Function.comp_def,
    concat_run hg some rectGate positive, concat_run hg some rectUp positive,
    concat_rows _ (List.cons_ne_nil _ _) widths,
    intermediateSizeTp_infer fits kv]
  simp

theorem concatQkv_eq (ratio : config.numKeyValueHeads ∣ config.numAttentionHeads) {q k v : Weight α}
    (hq : Rect config.hiddenSize config.hiddenSize q)
    (hk : Rect (config.numKeyValueHeads * config.hiddenSizePerHead) config.hiddenSize k)
    (hv : Rect (config.numKeyValueHeads * config.hiddenSizePerHead) config.hiddenSize v) :
    concatQkv config ((List.range count).map (fun j =>
      qkvPart config (inferTpSize * count) q k v (g * count + j))) =
      .ok (qkvPart config inferTpSize q k v g) := by
  have qPositive := fits.qSize_pos
  have kvPositive := fits.kvSize_pos
  have some := count_pos fits
  have enough := enough_train fits kv
  have infer := fits_infer fits kv
  have rectQ : Rect (inferTpSize * count * qSizeTp config (inferTpSize * count)) config.hiddenSize
    q := fits.hidden_eq ▸ hq
  have rectKv : ∀ {w : Weight α},
    Rect (config.numKeyValueHeads * config.hiddenSizePerHead) config.hiddenSize w →
      Rect (inferTpSize * count * kvSizeTp config (inferTpSize * count)) config.hiddenSize w := by
    intro w rect
    rwa [← fits.kv_even enough, Nat.mul_comm]
  have inside : ∀ j ∈ List.range count, g * count + j < inferTpSize * count :=
    fun j member => rank_inside hg (List.mem_range.mp member)
  have parts := mapM_map_ok
    (f := splitQkv (qSizeTp config (inferTpSize * count)) (kvSizeTp config (inferTpSize * count)))
    (List.range count) (fun j member => splitQkv_append (rectQ.block (inside j member)).rows
      ((rectKv hk).block (inside j member)).rows ((rectKv hv).block (inside j member)).rows)
  -- the rows of a shard are a multiple of `num_q_per_kv + 2`, and the quotient is its key and value
  -- rows
  have split := qSizeTp_ratio fits kv ratio
  have rows : (qkvPart config (inferTpSize * count) q k v (g * count + 0)).length =
      kvSizeTp config (inferTpSize * count) *
        (config.numAttentionHeads / config.numKeyValueHeads + 2) := by
    rw [(fits.rect_qkvPart hq hk hv (rank_inside hg some)).rows, totalSize, split, Nat.mul_add,
      Nat.mul_comm 2]
  have widths : ∀ w ∈ [block (qSizeTp config inferTpSize) g q, block (kvSizeTp config inferTpSize) g k,
      block (kvSizeTp config inferTpSize) g v], width w = config.hiddenSize := by
    have even := infer.kv_even (enough_infer fits kv)
    rw [Nat.mul_comm] at even
    rw [even] at hk hv
    simp only [List.forall_mem_cons, List.not_mem_nil, false_implies, implies_true, and_true]
    exact ⟨width_eq (infer.rect_qPart hq hg) infer.qSize_pos,
      width_eq (hk.block hg) infer.kvSize_pos, width_eq (hv.block hg) infer.kvSize_pos⟩
  rw [qSizeTp_infer fits kv, kvSizeTp_infer fits kv] at widths
  simp only [concatQkv, pyMod_pos fits.kvPositive, Nat.mod_eq_zero_of_dvd ratio, beq_self_eq_true,
    pyAssert_true, pyFloorDiv_pos fits.kvPositive, pyGet_map_range _ some, rows, Nat.mul_mod_left,
    Nat.mul_div_cancel _ (Nat.succ_pos _), ← split, ok_bind]
  simp only [qkvPart_even enough, parts, ok_bind, List.map_map, Function.comp_def,
    concat_run hg some rectQ qPositive, concat_run hg some (rectKv hk) kvPositive,
    concat_run hg some (rectKv hv) kvPositive,
    concat_rows _ (List.cons_ne_nil _ _) widths, qkvPart_even (enough_infer fits kv),
    qSizeTp_infer fits kv,
    kvSizeTp_infer fits kv]
  simp

theorem concat_vocab {stateDict : StateDict α} (full : stateDict.Full config) {param : Param}
    (there : config.paramShape param = some (config.vocabSize, config.hiddenSize)) :
    concat .rows ((List.range count).map (fun j =>
      vocabShard config (inferTpSize * count) stateDict param (g * count + j))) =
      .ok (vocabShard config inferTpSize stateDict param g) := by
  have rect := full.rect there
  simp only [fits.vocab_eq] at rect
  simp only [vocabShard, concat_run hg (count_pos fits) rect fits.vocabSize_pos,
    vocabSizeTp_infer fits kv]

theorem concat_ordinary {stateDict : StateDict α} (full : stateDict.Full config)
    {param : ModuleParam} {dim : Dim}
    (parallel : param.partitionDim = some dim) (notQkv : ¬∃ index, param = .layer index .qkvProj)
    (notGateUp : ¬∃ index, param = .layer index .gateUpProj) :
    concat dim ((List.range count).map (fun j =>
      moduleShard config (inferTpSize * count) stateDict (g * count + j) param)) =
      .ok (moduleShard config inferTpSize stateDict g param) := by
  cases param with
  | embedTokens => cases parallel; exact concat_vocab fits kv hg full rfl
  | lmHead => cases parallel; exact concat_vocab fits kv hg full rfl
  | norm => cases parallel
  | layer index part =>
    cases part with
    | qkvProj => exact absurd ⟨index, rfl⟩ notQkv
    | gateUpProj => exact absurd ⟨index, rfl⟩ notGateUp
    | oProj =>
      cases parallel
      simp only [moduleShard, LayerModule.weight, layerShard, concat_run_columns (count_pos fits),
        qSizeTp_infer fits kv]
    | downProj =>
      cases parallel
      simp only [moduleShard, LayerModule.weight, layerShard, concat_run_columns (count_pos fits),
        intermediateSizeTp_infer fits kv]
    | inputLayernorm => cases parallel
    | postAttentionLayernorm => cases parallel

theorem concat_infer (ratio : config.numKeyValueHeads ∣ config.numAttentionHeads)
    {stateDict : StateDict α} (full : stateDict.Full config) {param : ModuleParam}
    (inside : param.InModel config) {dim : Dim} (parallel : param.partitionDim = some dim) :
    defaultTpConcatFn layerNameMap config param.name dim ((List.range count).map (fun j =>
      moduleShard config (inferTpSize * count) stateDict (g * count + j) param)) =
      .ok (moduleShard config inferTpSize stateDict g param) := by
  rw [defaultTpConcatFn]
  by_cases qkv : ∃ index, param = .layer index .qkvProj
  · rw [if_pos ((qkv_infix_iff param).mpr qkv)]
    obtain ⟨index, rfl⟩ := qkv
    have rect : ∀ part : LayerParam,
        Rect (part.shape config).1 (part.shape config).2 (stateDict.weight (.layer index part)) :=
      fun part => full.rect (if_pos inside)
    exact concatQkv_eq fits kv hg ratio (rect .qProj) (rect .kProj) (rect .vProj)
  rw [if_neg (fun found => qkv ((qkv_infix_iff param).mp found))]
  have isParallel : param.partitionDim.isSome := by rw [parallel]; rfl
  by_cases gateUp : ∃ index, param = .layer index .gateUpProj
  · rw [if_pos ((gateUp_infix_iff isParallel).mpr gateUp)]
    obtain ⟨index, rfl⟩ := gateUp
    have rect : ∀ part : LayerParam,
        Rect (part.shape config).1 (part.shape config).2 (stateDict.weight (.layer index part)) :=
      fun part => full.rect (if_pos inside)
    exact concatGateUp_eq fits kv hg (rect .gateProj) (rect .upProj)
  · rw [if_neg (fun found => gateUp ((gateUp_infix_iff isParallel).mp found))]
    exact concat_ordinary fits kv hg full parallel qkv gateUp

end Concat

/-- The shards of the training ranks of a micro data parallel group are put together to the
shard that the loader would give the inference rank. -/
theorem tp_concat_infer_shard {config : Config} {tpSize inferTpSize : Nat}
    (fits : config.Fits tpSize) (kv : tpSize ∣ config.numKeyValueHeads)
    (ratio : config.numKeyValueHeads ∣ config.numAttentionHeads) (divides : inferTpSize ∣ tpSize)
    {stateDict : StateDict α} (full : stateDict.Full config) (garbage : α) {param : ModuleParam}
    (inside : param.InModel config) {dim : Dim} (parallel : param.partitionDim = some dim) {g : Nat}
    (hg : g < inferTpSize) :
    ∃ train infer shard, loaderShards config tpSize garbage stateDict param = .ok train ∧
      loaderShards config inferTpSize garbage stateDict param = .ok infer ∧ infer[g]? = some shard ∧
      defaultTpConcatFn layerNameMap config param.name dim (block (tpSize / inferTpSize) g train) =
        .ok shard := by
  obtain ⟨count, rfl⟩ := divides
  rw [Nat.mul_div_cancel_left _ (infer_pos fits)]
  refine ⟨_, _, moduleShard config inferTpSize stateDict g param,
    loaderShards_eq fits full garbage inside,
    loaderShards_eq (fits_infer fits kv) full garbage inside, ?_, ?_⟩
  · simp [hg]
  · rw [block_map_range _ (run_inside hg)]
    exact concat_infer fits kv hg ratio full inside parallel

def groupedConfig : Config := ⟨8, 8, 4, 4, 4, 1⟩

/-- Two inference ranks for four training ranks. -/
theorem tp_concat_infer_shard_groupedConfig :
    ∃ train infer shard,
      loaderShards groupedConfig 4 0 (countingDict groupedConfig) (.layer 0 .qkvProj) = .ok train ∧
      loaderShards groupedConfig 2 0 (countingDict groupedConfig) (.layer 0 .qkvProj) = .ok infer ∧
      infer[1]? = some shard ∧
        defaultTpConcatFn layerNameMap groupedConfig (ModuleParam.layer 0 .qkvProj).name .rows
        (block (4 / 2) 1 train) = .ok shard := by
  have fits : groupedConfig.Fits 4 := by
    constructor <;> decide
  have inside : (ModuleParam.layer 0 .qkvProj).InModel groupedConfig := Nat.one_pos
  exact tp_concat_infer_shard fits (by decide) (by decide) (by decide)
    (countingDict_full groupedConfig) 0 inside rfl
    Nat.one_lt_two

end Verl.ShardingManager
