import Verl.Base.Dict
import Verl.Base.Reindex

/-! `_megatron_calc_layer_map`: where a layer of the whole model lives. The loader and
the saver have the same copy of it. -/
namespace Verl.Megatron

structure LayerPlace where
  ppRank : Nat
  virtualPpRank : Nat
  layerIdx : Nat
  deriving DecidableEq

section

variable (numHiddenLayers ppSize virtualPpSize : Nat)

def numLayersPerModel : Nat := numHiddenLayers / ppSize / virtualPpSize

def layerOffset (ppRank virtualPpRank : Nat) : Nat :=
  virtualPpRank * (numHiddenLayers / virtualPpSize) +
    ppRank * numLayersPerModel numHiddenLayers ppSize virtualPpSize

def layerAssignments : List (Nat × LayerPlace) :=
  (List.range ppSize).flatMap (fun ppRank =>
    (List.range virtualPpSize).flatMap (fun virtualPpRank =>
    (List.range (numLayersPerModel numHiddenLayers ppSize virtualPpSize)).map (fun layerIdx =>
      (layerOffset numHiddenLayers ppSize virtualPpSize ppRank virtualPpRank + layerIdx,
        ⟨ppRank, virtualPpRank, layerIdx⟩))))

/-- `layer_map[layer]`; of several assignments the last one counts. -/
def layerMap (layer : Nat) : Py LayerPlace := do
  pyAssert (numLayersPerModel numHiddenLayers ppSize virtualPpSize * ppSize * virtualPpSize ==
    numHiddenLayers) ""
  match (layerAssignments numHiddenLayers ppSize virtualPpSize).reverse.lookup layer with
  | some place => .ok place
  | none => .error (.key "layer")

end

section Places

variable {numHiddenLayers ppSize virtualPpSize : Nat}

theorem mem_layerAssignments {e : Nat × LayerPlace} :
    e ∈ layerAssignments numHiddenLayers ppSize virtualPpSize ↔
      e.2.ppRank < ppSize ∧ e.2.virtualPpRank < virtualPpSize ∧
      e.2.layerIdx < numLayersPerModel numHiddenLayers ppSize virtualPpSize ∧
      e.1 = layerOffset numHiddenLayers ppSize virtualPpSize e.2.ppRank e.2.virtualPpRank +
        e.2.layerIdx := by
  simp only [layerAssignments, List.mem_flatMap, List.mem_map, List.mem_range]
  constructor
  · rintro ⟨p, hp, v, hv, l, hl, rfl⟩
    exact ⟨hp, hv, hl, rfl⟩
  · rintro ⟨hp, hv, hl, same⟩
    exact ⟨_, hp, _, hv, _, hl, by rw [← same]⟩

theorem mem_of_lookup {layer : Nat} {place : LayerPlace}
    (found : (layerAssignments numHiddenLayers ppSize virtualPpSize).reverse.lookup layer =
      some place) :
    (layer, place) ∈ layerAssignments numHiddenLayers ppSize virtualPpSize := by
  obtain ⟨before, after, shape, -⟩ := List.lookup_eq_some_iff.mp found
  rw [← List.mem_reverse, shape]
  simp

variable (divides : ppSize * virtualPpSize ∣ numHiddenLayers)

include divides

theorem layers_eq : numHiddenLayers =
    virtualPpSize * ppSize * numLayersPerModel numHiddenLayers ppSize virtualPpSize := by
  rw [numLayersPerModel, Nat.div_div_eq_div_mul, Nat.mul_comm virtualPpSize,
    Nat.mul_div_cancel' divides]

theorem layers_asserted (message : String) :
    pyAssert (numLayersPerModel numHiddenLayers ppSize virtualPpSize * ppSize * virtualPpSize ==
      numHiddenLayers) message = .ok () := by
  have whole := layers_eq divides
  rw [pyAssert_ok_iff, beq_iff_eq]
  conv => rhs; rw [whole]
  rw [Nat.mul_assoc, Nat.mul_comm, Nat.mul_comm ppSize]

variable (vpp : 0 < virtualPpSize)

include vpp

theorem layerOffset_eq (ppRank virtualPpRank : Nat) :
    layerOffset numHiddenLayers ppSize virtualPpSize ppRank virtualPpRank =
      (virtualPpRank * ppSize + ppRank) * numLayersPerModel numHiddenLayers ppSize
        virtualPpSize := by
  have whole := layers_eq divides
  have perChunk : numHiddenLayers / virtualPpSize =
      ppSize * numLayersPerModel numHiddenLayers ppSize virtualPpSize := by
    conv => lhs; rw [whole, Nat.mul_assoc]
    exact Nat.mul_div_cancel_left _ vpp
  rw [layerOffset, perChunk, Nat.add_mul, Nat.mul_assoc]

variable (pp : 0 < ppSize)

include pp

theorem place_of_layer {place : LayerPlace} (hpp : place.ppRank < ppSize)
    (hidx : place.layerIdx < numLayersPerModel numHiddenLayers ppSize virtualPpSize) {layer : Nat}
    (same : layerOffset numHiddenLayers ppSize virtualPpSize place.ppRank place.virtualPpRank +
      place.layerIdx = layer) :
    place = ⟨layer / numLayersPerModel numHiddenLayers ppSize virtualPpSize % ppSize,
      layer / numLayersPerModel numHiddenLayers ppSize virtualPpSize / ppSize,
      layer % numLayersPerModel numHiddenLayers ppSize virtualPpSize⟩ := by
  obtain ⟨p, v, l⟩ := place
  simp only at hpp hidx same
  rw [layerOffset_eq divides vpp] at same
  have size : 0 < numLayersPerModel numHiddenLayers ppSize virtualPpSize := Nat.zero_lt_of_lt hidx
  generalize numLayersPerModel numHiddenLayers ppSize virtualPpSize = n at *
  have quotient : layer / n = v * ppSize + p := by
    rw [← same, Nat.mul_comm, Nat.mul_add_div size, Nat.div_eq_of_lt hidx, Nat.add_zero]
  have remainder : layer % n = l := by
    rw [← same, Nat.mul_comm, Nat.mul_add_mod, Nat.mod_eq_of_lt hidx]
  rw [quotient, remainder, Nat.mul_comm v, Nat.mul_add_mod, Nat.mod_eq_of_lt hpp,
    Nat.mul_add_div pp, Nat.div_eq_of_lt hpp, Nat.add_zero]

theorem place_unique {a b : LayerPlace} (hppA : a.ppRank < ppSize) (hppB : b.ppRank < ppSize)
    (hidxA : a.layerIdx < numLayersPerModel numHiddenLayers ppSize virtualPpSize)
    (hidxB : b.layerIdx < numLayersPerModel numHiddenLayers ppSize virtualPpSize)
    (same : layerOffset numHiddenLayers ppSize virtualPpSize a.ppRank a.virtualPpRank + a.layerIdx =
      layerOffset numHiddenLayers ppSize virtualPpSize b.ppRank b.virtualPpRank + b.layerIdx) :
      a = b :=
  (place_of_layer divides vpp pp hppA hidxA same).trans
    (place_of_layer divides vpp pp hppB hidxB rfl).symm

theorem layerMap_eq {layer : Nat} (inside : layer < numHiddenLayers) :
    ∃ place : LayerPlace, layerMap numHiddenLayers ppSize virtualPpSize layer = .ok place ∧
      place.ppRank < ppSize ∧ place.virtualPpRank < virtualPpSize ∧
      place.layerIdx < numLayersPerModel numHiddenLayers ppSize virtualPpSize ∧
      layerOffset numHiddenLayers ppSize virtualPpSize place.ppRank place.virtualPpRank +
        place.layerIdx = layer := by
  have whole := layers_eq divides
  have size : 0 < numLayersPerModel numHiddenLayers ppSize virtualPpSize := by
    refine Nat.pos_of_ne_zero (fun zero => ?_)
    rw [zero, Nat.mul_zero] at whole
    omega
  let digits : LayerPlace :=
    ⟨layer / numLayersPerModel numHiddenLayers ppSize virtualPpSize % ppSize,
      layer / numLayersPerModel numHiddenLayers ppSize virtualPpSize / ppSize,
    layer % numLayersPerModel numHiddenLayers ppSize virtualPpSize⟩
  have assigned : (layer, digits) ∈ layerAssignments numHiddenLayers ppSize virtualPpSize := by
    refine mem_layerAssignments.mpr ⟨Nat.mod_lt _ pp, ?_, Nat.mod_lt _ size, ?_⟩
    · refine Nat.div_lt_of_lt_mul (Nat.div_lt_of_lt_mul ?_)
      rwa [Nat.mul_comm, Nat.mul_comm ppSize, ← whole]
    · rw [layerOffset_eq divides vpp, Nat.div_add_mod', Nat.div_add_mod']
  obtain ⟨place, found⟩ :
    ∃ place, (layerAssignments numHiddenLayers ppSize virtualPpSize).reverse.lookup layer =
      some place := by
    rw [← Option.isSome_iff_exists, List.lookup_isSome_iff]
    exact ⟨_, List.mem_reverse.mpr assigned, by simp⟩
  obtain ⟨hpp, hvpp, hidx, same⟩ := mem_layerAssignments.mp (mem_of_lookup found)
  refine ⟨place, ?_, hpp, hvpp, hidx, same.symm⟩
  simp only [layerMap, layers_asserted divides, ok_bind, found]

omit pp in
theorem layer_inside {place : LayerPlace} (hpp : place.ppRank < ppSize)
    (hvpp : place.virtualPpRank < virtualPpSize)
    (hidx : place.layerIdx < numLayersPerModel numHiddenLayers ppSize virtualPpSize) :
    layerOffset numHiddenLayers ppSize virtualPpSize place.ppRank place.virtualPpRank +
      place.layerIdx < numHiddenLayers := by
  have chunk : place.virtualPpRank * ppSize + place.ppRank + 1 ≤ virtualPpSize * ppSize := by
    have room := Nat.mul_le_mul_right ppSize hvpp
    rw [Nat.succ_mul] at room
    omega
  have rows := Nat.mul_le_mul_right (numLayersPerModel numHiddenLayers ppSize virtualPpSize) chunk
  rw [Nat.succ_mul, ← layers_eq divides] at rows
  rw [layerOffset_eq divides vpp]
  omega

/-- `layer_map` maps a layer to the place whose layer it is, and only to it. -/
theorem layerMap_ok_iff {layer : Nat} {place : LayerPlace} :
    layerMap numHiddenLayers ppSize virtualPpSize layer = .ok place ↔ place.ppRank < ppSize ∧
      place.virtualPpRank < virtualPpSize ∧
      place.layerIdx < numLayersPerModel numHiddenLayers ppSize virtualPpSize ∧
      layerOffset numHiddenLayers ppSize virtualPpSize place.ppRank place.virtualPpRank +
        place.layerIdx = layer := by
  constructor
  · intro mapped
    simp only [layerMap, layers_asserted divides, ok_bind] at mapped
    split at mapped
    · rename_i found at_
      cases mapped
      obtain ⟨hpp, hvpp, hidx, same⟩ := mem_layerAssignments.mp (mem_of_lookup at_)
      exact ⟨hpp, hvpp, hidx, same.symm⟩
    · cases mapped
  · rintro ⟨hpp, hvpp, hidx, rfl⟩
    obtain ⟨other, mapped, hpp', -, hidx', same⟩ := layerMap_eq divides vpp pp
      (layer_inside divides vpp hpp hvpp hidx)
    rw [mapped, place_unique divides vpp pp hpp' hpp hidx' hidx same]

end Places

end Verl.Megatron
