import Verl.Base.Reindex

/-! The rank layout of Megatron's process groups: tensor parallel ranks vary
fastest, then data parallel ranks, then pipeline stages. -/
namespace Verl.Megatron

structure Layout where
  tpSize : Nat
  dpSize : Nat
  ppSize : Nat
  tpPositive : 0 < tpSize
  dpPositive : 0 < dpSize
  ppPositive : 0 < ppSize

structure RankInfo where
  tpRank : Nat
  dpRank : Nat
  ppRank : Nat
  deriving DecidableEq

namespace Layout

variable (layout : Layout)

def worldSize : Nat := layout.ppSize * (layout.dpSize * layout.tpSize)

def globalRank (info : RankInfo) : Nat :=
  (info.ppRank * layout.dpSize + info.dpRank) * layout.tpSize + info.tpRank

def rankInfo (rank : Nat) : RankInfo where
  tpRank := rank % layout.tpSize
  dpRank := rank / layout.tpSize % layout.dpSize
  ppRank := rank / layout.tpSize / layout.dpSize

structure Valid (info : RankInfo) : Prop where
  tp : info.tpRank < layout.tpSize
  dp : info.dpRank < layout.dpSize
  pp : info.ppRank < layout.ppSize

def modelParallelGroup (dpRank rank : Nat) : Prop :=
  rank < layout.worldSize ∧ (layout.rankInfo rank).dpRank = dpRank

def dataParallelGroup (tpRank ppRank rank : Nat) : Prop :=
  rank < layout.worldSize ∧ (layout.rankInfo rank).tpRank = tpRank ∧
    (layout.rankInfo rank).ppRank = ppRank

variable {layout}

theorem rankInfo_globalRank (info : RankInfo) (valid : layout.Valid info) :
    layout.rankInfo (layout.globalRank info) = info := by
  obtain ⟨tp, dp, pp⟩ := info
  have quotient : ((pp * layout.dpSize + dp) * layout.tpSize + tp) / layout.tpSize =
      pp * layout.dpSize + dp := by
    rw [Nat.mul_comm, Nat.mul_add_div layout.tpPositive, Nat.div_eq_of_lt valid.tp, Nat.add_zero]
  simp only [rankInfo, globalRank, quotient, RankInfo.mk.injEq]
  refine ⟨?_, ?_, ?_⟩
  · rw [Nat.mul_comm, Nat.mul_add_mod, Nat.mod_eq_of_lt valid.tp]
  · rw [Nat.mul_comm, Nat.mul_add_mod, Nat.mod_eq_of_lt valid.dp]
  · rw [Nat.mul_comm, Nat.mul_add_div layout.dpPositive, Nat.div_eq_of_lt valid.dp, Nat.add_zero]

theorem globalRank_rankInfo (layout : Layout) (rank : Nat) :
    layout.globalRank (layout.rankInfo rank) = rank := by
  simp only [globalRank, rankInfo, Nat.div_add_mod']

theorem valid_rankInfo {rank : Nat} (inside : rank < layout.worldSize) :
    layout.Valid (layout.rankInfo rank) where
  tp := Nat.mod_lt _ layout.tpPositive
  dp := Nat.mod_lt _ layout.dpPositive
  pp := by
    rw [worldSize, ← Nat.mul_assoc] at inside
    exact Nat.div_lt_of_lt_mul
      (by rw [Nat.mul_comm]; exact Nat.div_lt_of_lt_mul (by rwa [Nat.mul_comm]))

theorem globalRank_lt {info : RankInfo} (valid : layout.Valid info) :
    layout.globalRank info < layout.worldSize := by
  have row : info.ppRank * layout.dpSize + info.dpRank < layout.ppSize * layout.dpSize := by
    calc info.ppRank * layout.dpSize + info.dpRank < (info.ppRank + 1) * layout.dpSize := by
          rw [Nat.succ_mul]
          exact Nat.add_lt_add_left valid.dp _
      _ ≤ layout.ppSize * layout.dpSize := Nat.mul_le_mul_right _ valid.pp
  calc layout.globalRank info <
    (info.ppRank * layout.dpSize + info.dpRank + 1) * layout.tpSize := by
        rw [Nat.succ_mul]
        exact Nat.add_lt_add_left valid.tp _
    _ ≤ layout.ppSize * layout.dpSize * layout.tpSize := Nat.mul_le_mul_right _ row
    _ = layout.worldSize := by rw [worldSize, Nat.mul_assoc]

theorem modelParallelGroup_globalRank {info : RankInfo} (valid : layout.Valid info) :
    layout.modelParallelGroup info.dpRank (layout.globalRank info) :=
  ⟨globalRank_lt valid, by rw [rankInfo_globalRank info valid]⟩

theorem dataParallelGroup_globalRank {info : RankInfo} (valid : layout.Valid info) :
    layout.dataParallelGroup info.tpRank info.ppRank (layout.globalRank info) :=
  ⟨globalRank_lt valid,
    by rw [rankInfo_globalRank info valid], by rw [rankInfo_globalRank info valid]⟩

theorem globalRank_zero : layout.globalRank ⟨0, 0, 0⟩ = 0 := by simp [globalRank]

theorem modelParallelGroup_zero : layout.modelParallelGroup 0 0 := by
  have valid : layout.Valid ⟨0, 0, 0⟩ := ⟨layout.tpPositive, layout.dpPositive, layout.ppPositive⟩
  have member := modelParallelGroup_globalRank valid
  rwa [globalRank_zero] at member

theorem rankInfo_congr {a b : Nat} (same : a / layout.tpSize = b / layout.tpSize) :
    (layout.rankInfo a).dpRank = (layout.rankInfo b).dpRank ∧
    (layout.rankInfo a).ppRank = (layout.rankInfo b).ppRank := by
  simp [rankInfo, same]

theorem lt_of_same_group {a b : Nat} (same : a / layout.tpSize = b / layout.tpSize)
    (inside : b < layout.worldSize) :
    a < layout.worldSize := by
  have valid := valid_rankInfo inside
  obtain ⟨dp, pp⟩ := rankInfo_congr same
  rw [← globalRank_rankInfo layout a]
  exact globalRank_lt ⟨Nat.mod_lt _ layout.tpPositive, dp ▸ valid.dp, pp ▸ valid.pp⟩

theorem div_of_run {size j : Nat} (divides : size ∣ layout.tpSize) (hj : j < size) (rank : Nat) :
    (rank / size * size + j) / layout.tpSize = rank / layout.tpSize := by
  obtain ⟨count, hcount⟩ := divides
  have positive : 0 < size := by omega
  have first : (rank / size * size + j) / size = rank / size := by
    rw [Nat.mul_comm, Nat.mul_add_div positive, Nat.div_eq_of_lt hj, Nat.add_zero]
  rw [hcount, ← Nat.div_div_eq_div_mul, first, Nat.div_div_eq_div_mul]

theorem range_worldSize (layout : Layout) :
    List.range layout.worldSize = (List.range layout.ppSize).flatMap (fun pp =>
      (List.range layout.dpSize).flatMap (fun dp =>
        (List.range layout.tpSize).map (fun tp => layout.globalRank ⟨tp, dp, pp⟩))) := by
  rw [worldSize, range_mul]
  apply List.flatMap_congr
  intro pp _
  rw [range_mul, List.map_flatMap]
  apply List.flatMap_congr
  intro dp _
  rw [List.map_map]
  apply List.map_congr_left
  intro tp _
  simp only [globalRank, Function.comp_apply]
  rw [Nat.add_mul, Nat.mul_assoc, Nat.add_assoc]

theorem filter_stage {pp : Nat} (hpp : pp < layout.ppSize) :
    (List.range layout.worldSize).filter (fun rank =>
      (layout.rankInfo rank).tpRank = 0 ∧ (layout.rankInfo rank).ppRank = pp) =
    (List.range layout.dpSize).map (fun dp => layout.globalRank ⟨0, dp, pp⟩) := by
  have column : ∀ stage < layout.ppSize, ∀ dp < layout.dpSize,
      ((List.range layout.tpSize).map (fun tp => layout.globalRank ⟨tp, dp, stage⟩)).filter
      (fun rank =>
        (layout.rankInfo rank).tpRank = 0 ∧ (layout.rankInfo rank).ppRank = pp) =
      if stage = pp then [layout.globalRank ⟨0, dp, stage⟩] else [] := by
    intro stage hstage dp hdp
    have keep : (List.range layout.tpSize).filter
        ((fun rank => decide ((layout.rankInfo rank).tpRank = 0 ∧
          (layout.rankInfo rank).ppRank = pp)) ∘
          (fun tp => layout.globalRank ⟨tp, dp, stage⟩)) =
        (List.range layout.tpSize).filter (fun tp => tp = 0 ∧ stage = pp) := by
      apply List.filter_congr
      intro tp member
      simp [rankInfo_globalRank ⟨tp, dp, stage⟩ ⟨List.mem_range.mp member, hdp, hstage⟩]
    rw [List.filter_map, keep]
    obtain ⟨rest, hrest⟩ := Nat.exists_eq_succ_of_ne_zero (Nat.pos_iff_ne_zero.mp layout.tpPositive)
    by_cases same : stage = pp
    · simp [same, hrest, List.range_succ_eq_map, List.filter_map, Function.comp_def]
    · simp [same]
  rw [range_worldSize, List.filter_flatMap]
  have stages : ∀ stage ∈ List.range layout.ppSize,
      ((List.range layout.dpSize).flatMap (fun dp =>
        (List.range layout.tpSize).map (fun tp => layout.globalRank ⟨tp, dp, stage⟩))).filter
          (fun rank =>
          (layout.rankInfo rank).tpRank = 0 ∧ (layout.rankInfo rank).ppRank = pp) =
      if stage = pp then
        (List.range layout.dpSize).map (fun dp => layout.globalRank ⟨0, dp, pp⟩)
      else [] := by
    intro stage hstage
    rw [List.filter_flatMap,
      List.flatMap_congr (fun dp hdp =>
      column stage (List.mem_range.mp hstage) dp (List.mem_range.mp hdp))]
    by_cases same : stage = pp
    · subst same
      simp [List.map_eq_flatMap]
    · simp [same]
  rw [List.flatMap_congr stages, flatMap_range_single hpp]

end Layout

end Verl.Megatron
