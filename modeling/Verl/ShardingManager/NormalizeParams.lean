import Verl.Llama.RoundTrip
import Verl.ShardingManager.ModuleParams

/-! `normalize_pp_vpp_params`: the parameters of all stages and chunks under the names
that a model without pipeline has, and how the renaming fits `_megatron_calc_layer_map`. -/
namespace Verl.ShardingManager

open Llama Megatron

variable {α : Type}

def normalizedOffset (ppRank vppRank ppSize vppSize numLayers : Nat) : Nat :=
  if vppSize > 1 then
    let layersPerPp := numLayers / ppSize
    let layersPerVpp := layersPerPp / vppSize
    let ppOffset := layersPerVpp * ppRank
    let vppOffset := layersPerVpp * ppSize * vppRank
    ppOffset + vppOffset
  else
    let layersPerPp := numLayers / ppSize
    layersPerPp * ppRank

/-- The index at which the loop over the parts stops: at the first `layers`, else at the last
part. -/
def layerPartIdx (layerName : Text) (splitName : List Text) : Nat :=
  if layerName ∈ splitName then splitName.idxOf layerName else splitName.length - 1

def normalizeModelName (layerName name : Text) (ppRank vppRank ppSize vppSize numLayers : Nat) :
    Py Text :=
  if layerName <:+: name then do
    let splitName := name.splitOn '.'
    let layerNumIdx := layerPartIdx layerName splitName + 1
    pyAssert (layerNumIdx + 1 ≤ splitName.length) "len(split_name) >= layer_num_idx + 1"
    let digits ← pyGet splitName layerNumIdx
    pyAssert (digits ≠ [] && digits.all Char.isDigit) "split_name[layer_num_idx].isdigit()"
    let layerNum ← Text.toInt digits
    let layerOffset := normalizedOffset ppRank vppRank ppSize vppSize numLayers
    let renamed ← pySet splitName layerNumIdx (Text.ofNat (layerNum + layerOffset))
    return ['.'].intercalate renamed
  else return name

/-- `normalize_pp_vpp_params`; `params[pp_rank][vpp_rank]` are the items of a chunk. -/
def normalizePpVppParams (params : List (List (List (Text × Weight α)))) (numHiddenLayers : Nat)
    (layerName : Text) :
    Py (StateDict α) :=
  params.zipIdx.foldlM (fun stages (chunks, ppRank) =>
    chunks.zipIdx.foldlM (fun stage (items, vppRank) =>
      items.foldlM (fun normalized (name, param) => do
        let normalizedName ← normalizeModelName layerName name ppRank vppRank params.length
          chunks.length numHiddenLayers
        return normalized.set normalizedName param) stage) stages) StateDict.empty

def moduleParams (model : ModelChunk α) : List (ModuleParam × Weight α) :=
  model.embedTokens.toList.map (fun w => (.embedTokens, w)) ++
    model.layers.zipIdx.flatMap (fun (layer, index) =>
      LayerModule.all.map (fun part => (.layer index part, part.weight layer))) ++
    model.norm.toList.map (fun w => (.norm, w)) ++ model.lmHead.toList.map (fun w => (.lmHead, w))

def namedParameters (model : ModelChunk α) : List (Text × Weight α) :=
  (moduleParams model).map (fun e => (e.1.name, e.2)) ++
    model.rewardHead.toList.map (fun w => ("reward_head.weight".toList, w))

section Names

theorem splitOn_layer_name (index : Nat) (part : LayerModule) :
    (ModuleParam.layer index part).name.splitOn '.' =
      "model".toList :: "layers".toList :: Text.ofNat index :: part.name.splitOn '.' := by
  have front : (ModuleParam.layer index part).name =
      "model".toList ++ '.' :: ("layers".toList ++ '.' :: (Text.ofNat index ++ '.' :: part.name)) :=
        rfl
  rw [front, List.splitOn_append_cons_self_of_not_mem (by decide),
    List.splitOn_append_cons_self_of_not_mem (by decide),
    List.splitOn_append_cons_self_of_not_mem (Text.dot_notMem_ofNat index)]

theorem layers_infix_iff (param : ModuleParam) :
    "layers".toList <:+: param.name ↔ ∃ index part, param = .layer index part := by
  cases param with
  | layer index part =>
    refine iff_of_true ?_ ⟨index, part, rfl⟩
    exact ⟨"model.".toList, '.' :: (Text.ofNat index ++ '.' :: part.name), rfl⟩
  | _ => exact iff_of_false (by decide) (by rintro ⟨_, _, same⟩; cases same)

variable (ppRank vppRank ppSize vppSize numLayers : Nat)

def globalParam (ppRank vppRank ppSize vppSize numLayers : Nat) : ModuleParam → ModuleParam
  | .layer index part =>
    .layer (index + normalizedOffset ppRank vppRank ppSize vppSize numLayers) part
  | param => param

theorem normalizeModelName_eq (param : ModuleParam) :
    normalizeModelName "layers".toList param.name ppRank vppRank ppSize vppSize numLayers =
      .ok (globalParam ppRank vppRank ppSize vppSize numLayers param).name := by
  unfold normalizeModelName
  by_cases layered : ∃ index part, param = .layer index part
  · rw [if_pos ((layers_infix_iff param).mpr layered)]
    obtain ⟨index, part, rfl⟩ := layered
    have place : layerPartIdx "layers".toList ((ModuleParam.layer index part).name.splitOn '.') =
        1 := by
      rw [splitOn_layer_name, layerPartIdx, if_pos (by simp), List.idxOf_cons_ne _ (by decide),
        List.idxOf_cons_self]
    have digits : (decide (Text.ofNat index ≠ []) && (Text.ofNat index).all Char.isDigit) =
        true := by
      rw [Bool.and_eq_true, decide_eq_true_eq]
      exact ⟨Nat.toDigits_ne_nil, List.all_eq_true.mpr (fun c member =>
        Nat.isDigit_of_mem_toDigits (by decide) (by decide) member)⟩
    have room : decide (1 + 1 + 1 ≤ ((ModuleParam.layer index part).name.splitOn '.').length) =
        true := by
      rw [splitOn_layer_name, decide_eq_true_eq]
      simp only [List.length_cons]
      omega
    have number : pyGet ((ModuleParam.layer index part).name.splitOn '.') (1 + 1) =
        .ok (Text.ofNat index) := by
      rw [splitOn_layer_name]
      rfl
    have renamed : ∀ other,
      pySet ((ModuleParam.layer index part).name.splitOn '.') (1 + 1) (Text.ofNat other) =
        .ok ((ModuleParam.layer other part).name.splitOn '.') := by
      intro other
      rw [splitOn_layer_name, splitOn_layer_name, pySet, if_pos (by simp)]
      rfl
    simp only [place, room, pyAssert_true, ok_bind, number, digits, Text.toInt_ofNat,
      renamed, pure_eq_ok, List.intercalate_splitOn]
    rfl
  · rw [if_neg (fun found => layered ((layers_infix_iff param).mp found))]
    cases param with
    | layer index part => exact absurd ⟨index, part, rfl⟩ layered
    | _ => rfl

end Names

section Offsets

variable {numHiddenLayers ppSize vppSize : Nat} (divides : ppSize * vppSize ∣ numHiddenLayers)
  (pp : 0 < ppSize) (vpp : 0 < vppSize)

include divides vpp

theorem normalizedOffset_eq (ppRank : Nat) {vppRank : Nat} (hv : vppRank < vppSize) :
    normalizedOffset ppRank vppRank ppSize vppSize numHiddenLayers =
      layerOffset numHiddenLayers ppSize vppSize ppRank vppRank := by
  rw [layerOffset_eq divides vpp, normalizedOffset]
  by_cases several : vppSize > 1
  · rw [if_pos several, Nat.add_mul, Nat.add_comm, Nat.mul_comm ppRank,
      Nat.mul_comm _ vppRank, ← Nat.mul_assoc]
    simp only [numLayersPerModel, Nat.mul_comm ppSize, Nat.mul_assoc]
  · obtain rfl : vppSize = 1 := by omega
    obtain rfl : vppRank = 0 := by omega
    rw [if_neg several, numLayersPerModel, Nat.div_one, Nat.zero_mul, Nat.zero_add, Nat.mul_comm]

include pp

theorem layerMap_defined_iff {layer : Nat} :
    (∃ place, layerMap numHiddenLayers ppSize vppSize layer = .ok place) ↔
      layer < numHiddenLayers := by
  constructor
  · rintro ⟨place, mapped⟩
    obtain ⟨hpp, hv, hl, rfl⟩ := (layerMap_ok_iff divides vpp pp).mp mapped
    exact layer_inside divides vpp hpp hv hl
  · intro inside
    obtain ⟨place, mapped, -⟩ := layerMap_eq divides vpp pp inside
    exact ⟨place, mapped⟩

theorem layerMap_renamed_iff {ppRank vppRank index : Nat} (hpp : ppRank < ppSize)
    (hv : vppRank < vppSize)
    (hl : index < numLayersPerModel numHiddenLayers ppSize vppSize) {layer : Nat} :
    layerMap numHiddenLayers ppSize vppSize layer = .ok ⟨ppRank, vppRank, index⟩ ↔
      layer = index + normalizedOffset ppRank vppRank ppSize vppSize numHiddenLayers := by
  rw [layerMap_ok_iff divides vpp pp, normalizedOffset_eq divides vpp ppRank hv, Nat.add_comm index]
  constructor
  · rintro ⟨-, -, -, same⟩
    exact same.symm
  · rintro rfl
    exact ⟨hpp, hv, hl, rfl⟩

end Offsets

def writeAll (stateDict : StateDict α) (writes : List (Text × Weight α)) : StateDict α :=
  writes.foldl (fun dict e => dict.set e.1 e.2) stateDict

theorem foldlM_writes {ι : Type} {f : StateDict α → ι → Py (StateDict α)}
    {writes : ι → List (Text × Weight α)} (is : List ι)
    (each : ∀ i ∈ is, ∀ dict, f dict i = .ok (writeAll dict (writes i))) (stateDict : StateDict α) :
    is.foldlM f stateDict = .ok (writeAll stateDict (is.flatMap writes)) := by
  induction is generalizing stateDict with
  | nil => rfl
  | cons i is ih =>
    rw [List.foldlM_cons, each i List.mem_cons_self, ok_bind,
      ih (fun j member => each j (List.mem_cons_of_mem i member)), List.flatMap_cons, writeAll,
      writeAll, writeAll, List.foldl_append]

theorem writeAll_apply (stateDict : StateDict α) (writes : List (Text × Weight α)) (name : Text) :
    writeAll stateDict writes name = (writes.reverse.lookup name).or (stateDict name) := by
  induction writes generalizing stateDict with
  | nil => rfl
  | cons e es ih =>
    obtain ⟨key, w⟩ := e
    have step : stateDict.set key w name = ([(key, w)].lookup name).or (stateDict name) := by
      by_cases same : name = key
      · simp [StateDict.set, same]
      · simp [StateDict.set, List.lookup_cons, same, beq_eq_false_iff_ne.mpr same]
    rw [List.reverse_cons, List.lookup_append, Option.or_assoc, ← step]
    exact ih _

theorem writeAll_eq_some_iff {writes : List (Text × Weight α)}
    (functional : ∀ name v w, (name, v) ∈ writes → (name, w) ∈ writes → v = w) {name : Text}
    {w : Weight α} :
    writeAll StateDict.empty writes name = some w ↔ (name, w) ∈ writes := by
  have written : ∀ {v}, writes.reverse.lookup name = some v → (name, v) ∈ writes := by
    intro v found
    obtain ⟨before, after, shape, -⟩ := List.lookup_eq_some_iff.mp found
    rw [← List.mem_reverse, shape]
    simp
  rw [writeAll_apply, StateDict.empty, Option.or_none]
  constructor
  · exact written
  · intro member
    obtain ⟨v, found⟩ := Option.isSome_iff_exists.mp (List.lookup_isSome_iff.mpr
      ⟨(name, w), List.mem_reverse.mpr member, BEq.refl name⟩)
    rw [found, functional name v w (written found) member]

def held (model : ModelChunk α) : ModuleParam → Option (Weight α)
  | .embedTokens => model.embedTokens
  | .layer index part => model.layers[index]?.map part.weight
  | .norm => model.norm
  | .lmHead => model.lmHead

theorem mem_moduleParams {model : ModelChunk α} {param : ModuleParam} {w : Weight α} :
    (param, w) ∈ moduleParams model ↔ held model param = some w := by
  cases param with
  | layer index part =>
    have known : part ∈ LayerModule.all := by cases part <;> decide
    simp only [moduleParams, held, List.mem_append, List.mem_map, List.mem_flatMap,
      Option.map_eq_some_iff]
    constructor
    · rintro (((⟨_, _, same⟩ | ⟨⟨layer, l⟩, inside, other, -, same⟩) | ⟨_, _, same⟩) | ⟨_, _, same⟩)
      · cases same
      · cases same
        exact ⟨layer, List.mem_zipIdx_iff_getElem?.mp inside, rfl⟩
      · cases same
      · cases same
    · rintro ⟨layer, found, rfl⟩
      exact .inl (.inl (.inr ⟨(layer, index), List.mem_zipIdx_iff_getElem?.mpr found,
        part, known, rfl⟩))
  | _ => simp [moduleParams, held]

section Merge

variable {job : Job α}
    (divides : job.layout.ppSize * job.virtualPpSize ∣ job.config.numHiddenLayers)
  (vpp : 0 < job.virtualPpSize) {models : Nat → Nat → ModelChunk α} {tpRank dpRank : Nat}
  (built : ∀ p < job.layout.ppSize, ∀ v < job.virtualPpSize,
    (models p v).Built job ⟨tpRank, dpRank, p⟩ v)

/-- `AllGatherPPModel.get_all_params`; no name of a module has `lora` in it. -/
def allParams (job : Job α) (models : Nat → Nat → ModelChunk α) :
    List (List (List (Text × Weight α))) :=
  (List.range job.layout.ppSize).map (fun p =>
    (List.range job.virtualPpSize).map (fun v => namedParameters (models p v)))

def renamed (job : Job α) (ppRank vppRank : Nat) (param : ModuleParam) : ModuleParam :=
  globalParam ppRank vppRank job.layout.ppSize job.virtualPpSize job.config.numHiddenLayers param

def allWrites (job : Job α) (models : Nat → Nat → ModelChunk α) : List (Text × Weight α) :=
  (List.range job.layout.ppSize).flatMap (fun p => (List.range job.virtualPpSize).flatMap (fun v =>
    (moduleParams (models p v)).map (fun e => ((renamed job p v e.1).name, e.2))))

theorem zipIdx_map_range {β : Type} (f : Nat → β) (n : Nat) :
    ((List.range n).map f).zipIdx = (List.range n).map (fun i => (f i, i)) := by
  refine List.ext_getElem (by simp) (fun i hi _ => ?_)
  simp

include built in
theorem normalizePpVppParams_eq :
    normalizePpVppParams (allParams job models) job.config.numHiddenLayers "layers".toList =
      .ok (writeAll StateDict.empty (allWrites job models)) := by
  have stages : (allParams job models).length = job.layout.ppSize := by simp [allParams]
  have chunks : ∀ p,
    ((List.range job.virtualPpSize).map (fun v => namedParameters (models p v))).length =
      job.virtualPpSize := by
    intro p
    simp
  unfold normalizePpVppParams
  rw [stages, allParams, zipIdx_map_range, List.foldlM_map]
  refine foldlM_writes _ (fun p hp dict => ?_) _
  simp only [chunks, zipIdx_map_range, List.foldlM_map]
  refine foldlM_writes _ (fun v hv dict => ?_) _
  have noReward := (built p (List.mem_range.mp hp) v (List.mem_range.mp hv)).rewardHead
  simp only [namedParameters, noReward, Option.toList_none, List.map_nil, List.append_nil,
    List.foldlM_map, normalizeModelName_eq, ok_bind, pure_eq_ok]
  rw [List.map_eq_flatMap]
  refine foldlM_writes _ ?_ _
  intro e _ dict
  rfl

theorem mem_allWrites {name : Text} {w : Weight α} :
    (name, w) ∈ allWrites job models ↔ ∃ p < job.layout.ppSize, ∃ v < job.virtualPpSize, ∃ param,
      held (models p v) param = some w ∧ (renamed job p v param).name = name := by
  simp only [allWrites, List.mem_flatMap, List.mem_range, List.mem_map]
  constructor
  · rintro ⟨p, hp, v, hv, ⟨param, weight⟩, member, same⟩
    cases same
    exact ⟨p, hp, v, hv, param, mem_moduleParams.mp member, rfl⟩
  · rintro ⟨p, hp, v, hv, param, found, rfl⟩
    exact ⟨p, hp, v, hv, (param, w), mem_moduleParams.mpr found, rfl⟩

section Distinct

include divides vpp built

theorem renamed_injective {p q u v : Nat} {a b : ModuleParam} (hp : p < job.layout.ppSize)
    (hq : q < job.layout.ppSize)
    (hu : u < job.virtualPpSize) (hv : v < job.virtualPpSize) (first : (held (models p u) a).isSome)
    (second : (held (models q v) b).isSome) (same : renamed job p u a = renamed job q v b) :
    p = q ∧ u = v ∧ a = b := by
  have one := built p hp u hu
  have two := built q hq v hv
  cases a with
  | embedTokens =>
    cases b with
    | embedTokens =>
      obtain ⟨hp, hu⟩ := one.preProcess.mp first
      obtain ⟨hq, hv⟩ := two.preProcess.mp second
      exact ⟨hp.trans hq.symm, hu.trans hv.symm, rfl⟩
    | _ => cases same
  | norm =>
    cases b with
    | norm =>
      obtain ⟨hp, hu⟩ := one.normPostProcess.mp first
      obtain ⟨hq, hv⟩ := two.normPostProcess.mp second
      exact ⟨Nat.succ.inj (hp.trans hq.symm), Nat.succ.inj (hu.trans hv.symm), rfl⟩
    | _ => cases same
  | lmHead =>
    cases b with
    | lmHead =>
      obtain ⟨hp, hu⟩ := one.headPostProcess.mp first
      obtain ⟨hq, hv⟩ := two.headPostProcess.mp second
      exact ⟨Nat.succ.inj (hp.trans hq.symm), Nat.succ.inj (hu.trans hv.symm), rfl⟩
    | _ => cases same
  | layer i part =>
    cases b with
    | layer j other =>
      obtain ⟨layers, rfl⟩ := ModuleParam.layer.inj same
      have hi : i < numLayersPerModel job.config.numHiddenLayers job.layout.ppSize
          job.virtualPpSize := by
        simpa [held, one.numLayers] using first
      have hj : j < numLayersPerModel job.config.numHiddenLayers job.layout.ppSize
          job.virtualPpSize := by
        simpa [held, two.numLayers] using second
      rw [normalizedOffset_eq divides vpp p hu, normalizedOffset_eq divides vpp q hv,
        Nat.add_comm i, Nat.add_comm j] at layers
      cases place_unique divides vpp job.layout.ppPositive (a := ⟨p, u, i⟩) (b := ⟨q, v, j⟩) hp
        hq hi hj layers
      exact ⟨rfl, rfl, rfl⟩
    | _ => cases same

theorem allWrites_functional :
    ∀ name v w, (name, v) ∈ allWrites job models → (name, w) ∈ allWrites job models → v = w := by
  intro name x y first second
  obtain ⟨p, hp, u, hu, a, foundA, rfl⟩ := mem_allWrites.mp first
  obtain ⟨q, hq, v, hv, b, foundB, same⟩ := mem_allWrites.mp second
  obtain ⟨rfl, rfl, rfl⟩ :=
    renamed_injective divides vpp built hp hq hu hv (by rw [foundA]; rfl) (by rw [foundB]; rfl)
    (ModuleParam.name_injective same.symm)
  exact Option.some.inj (foundA.symm.trans foundB)

theorem held_somewhere {param : ModuleParam} (inside : param.InModel job.config) :
    ∃ p < job.layout.ppSize, ∃ v < job.virtualPpSize, ∃ own, (held (models p v) own).isSome ∧
      renamed job p v own = param := by
  have pp := job.layout.ppPositive
  have last : job.layout.ppSize - 1 < job.layout.ppSize := Nat.sub_lt pp Nat.one_pos
  have final : job.virtualPpSize - 1 < job.virtualPpSize := Nat.sub_lt vpp Nat.one_pos
  cases param with
  | embedTokens =>
    exact ⟨0, pp, 0, vpp, .embedTokens, (built 0 pp 0 vpp).preProcess.mpr ⟨rfl, rfl⟩, rfl⟩
  | norm =>
    exact ⟨_, last, _, final, .norm, (built _ last _ final).normPostProcess.mpr
      ⟨Nat.sub_add_cancel pp, Nat.sub_add_cancel vpp⟩, rfl⟩
  | lmHead =>
    exact ⟨_, last, _, final, .lmHead, (built _ last _ final).headPostProcess.mpr
      ⟨Nat.sub_add_cancel pp, Nat.sub_add_cancel vpp⟩, rfl⟩
  | layer g part =>
    obtain ⟨⟨p, v, l⟩, -, hp, hv, hl, same⟩ := layerMap_eq divides vpp pp inside
    refine ⟨p, hp, v, hv, .layer l part, ?_, ?_⟩
    · simpa [held, (built p hp v hv).numLayers] using hl
    · rw [renamed, globalParam, normalizedOffset_eq divides vpp p hv, Nat.add_comm, same]

theorem renamed_inModel {p v : Nat} {own : ModuleParam} (hp : p < job.layout.ppSize)
    (hv : v < job.virtualPpSize)
    (found : (held (models p v) own).isSome) : (renamed job p v own).InModel job.config := by
  cases own with
  | layer l part =>
    have hl : l < numLayersPerModel job.config.numHiddenLayers job.layout.ppSize
        job.virtualPpSize := by
      simpa [held, (built p hp v hv).numLayers] using found
    have inside := layer_inside divides vpp (show (⟨p, v, l⟩ : LayerPlace).ppRank < _ from hp) hv hl
    rw [Nat.add_comm] at inside
    rw [renamed, globalParam, normalizedOffset_eq divides vpp p hv]
    exact inside
  | _ => trivial

end Distinct

end Merge

/-- Renaming and `layer_map` are inverse to each other, and in the merged parameters every
parameter of every stage is there under a name of its own. -/
theorem normalize_inverse_of_layer_map {job : Job α}
    (divides : job.layout.ppSize * job.virtualPpSize ∣ job.config.numHiddenLayers)
    (vpp : 0 < job.virtualPpSize)
    {models : Nat → Nat → ModelChunk α} {tpRank dpRank : Nat}
    (built : ∀ p < job.layout.ppSize, ∀ v < job.virtualPpSize,
      (models p v).Built job ⟨tpRank, dpRank, p⟩ v) :
    let rename := fun p v (param : ModuleParam) =>
      normalizeModelName "layers".toList param.name p v job.layout.ppSize job.virtualPpSize
        job.config.numHiddenLayers
    let layerMap := layerMap job.config.numHiddenLayers job.layout.ppSize job.virtualPpSize
    (∀ g, (∃ place, layerMap g = .ok place) ↔ g < job.config.numHiddenLayers) ∧
    (∀ p < job.layout.ppSize, ∀ v < job.virtualPpSize,
      ∀ l < numLayersPerModel job.config.numHiddenLayers job.layout.ppSize job.virtualPpSize,
        ∀ part, ∃ g, rename p v (.layer l part) = .ok (ModuleParam.layer g part).name ∧
        ∀ other, layerMap other = .ok ⟨p, v, l⟩ ↔ other = g) ∧
    ∃ merged, normalizePpVppParams (allParams job models) job.config.numHiddenLayers
      "layers".toList = .ok merged ∧
      (∀ param : ModuleParam, (merged param.name).isSome ↔ param.InModel job.config) ∧
      ∀ p < job.layout.ppSize, ∀ v < job.virtualPpSize, ∀ own w, held (models p v) own = some w →
        ∃ param : ModuleParam, rename p v own = .ok param.name ∧ merged param.name = some w ∧
          ∀ q < job.layout.ppSize, ∀ u < job.virtualPpSize, ∀ other,
            (held (models q u) other).isSome →
            rename q u other = .ok param.name → q = p ∧ u = v ∧ other = own := by
  have pp := job.layout.ppPositive
  have functional := allWrites_functional divides vpp built
  refine ⟨fun g => layerMap_defined_iff divides pp vpp, ?_,
    writeAll StateDict.empty (allWrites job models), normalizePpVppParams_eq built, ?_, ?_⟩
  · intro p hp v hv l hl part
    exact ⟨_, normalizeModelName_eq .., fun other => layerMap_renamed_iff divides pp vpp hp hv hl⟩
  · intro param
    rw [Option.isSome_iff_exists]
    constructor
    · rintro ⟨w, found⟩
      obtain ⟨p, hp, v, hv, own, foundOwn, same⟩ :=
        mem_allWrites.mp ((writeAll_eq_some_iff functional).mp found)
      rw [← ModuleParam.name_injective same]
      exact renamed_inModel divides vpp built hp hv (by rw [foundOwn]; rfl)
    · intro inside
      obtain ⟨p, hp, v, hv, own, there, rfl⟩ := held_somewhere divides vpp built inside
      obtain ⟨w, found⟩ := Option.isSome_iff_exists.mp there
      exact ⟨w, (writeAll_eq_some_iff functional).mpr
        (mem_allWrites.mpr ⟨p, hp, v, hv, own, found, rfl⟩)⟩
  · intro p hp v hv own w found
    refine ⟨renamed job p v own, normalizeModelName_eq .., ?_, ?_⟩
    · exact (writeAll_eq_some_iff functional).mpr
        (mem_allWrites.mpr ⟨p, hp, v, hv, own, found, rfl⟩)
    · intro q hq u hu other there same
      have names := Except.ok.inj ((normalizeModelName_eq q u _ _ _ other).symm.trans same)
      exact renamed_injective divides vpp built hq hp hu hv there (by rw [found]; rfl)
        (ModuleParam.name_injective names)

/-- Two stages with two chunks each: layer 0 of the second chunk on the second stage is layer 3. -/
theorem normalize_inverse_of_layer_map_tinyJob :
    ∃ merged, normalizePpVppParams
      (allParams tinyJob (fun p v => ModelChunk.init tinyJob ⟨0, 0, p⟩ (10 * p + v) v))
        tinyJob.config.numHiddenLayers "layers".toList = .ok merged ∧
      merged (ModuleParam.layer 3 .oProj).name = some [[11, 11], [11, 11], [11, 11], [11, 11]] := by
  have built : ∀ p < tinyJob.layout.ppSize, ∀ v < tinyJob.virtualPpSize,
      (ModelChunk.init tinyJob ⟨0, 0, p⟩ (10 * p + v) v).Built tinyJob ⟨0, 0, p⟩ v :=
    fun p _ v _ => built_init tinyJob ⟨0, 0, p⟩ (10 * p + v) v
  obtain ⟨-, -, merged, returned, -, kept⟩ :=
    normalize_inverse_of_layer_map (by decide) (by decide) built
  obtain ⟨param, renamed, found, -⟩ := kept 1 (by decide) 1 (by decide) (.layer 0 .oProj) _ rfl
  cases ModuleParam.name_injective
    (Except.ok.inj ((normalizeModelName_eq 1 1 _ _ _ _).symm.trans renamed))
  exact ⟨merged, returned, found⟩

end Verl.ShardingManager
