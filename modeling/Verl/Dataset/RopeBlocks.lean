import Mathlib.Order.Bounds.Basic
import Mathlib.Tactic.Ring
import Verl.Base.Layout
import Verl.Base.Reindex
import Verl.Dataset.RopeIndex

/-! The blocks of a prompt with images and the position triples that each of them gets from a
start. -/
namespace Verl.Dataset

structure Triple where
  temporal : Nat
  height : Nat
  width : Nat
  deriving DecidableEq

namespace Triple

def coords (t : Triple) : List Nat := [t.temporal, t.height, t.width]

def diagonal (n : Nat) : Triple := ⟨n, n, n⟩

end Triple

def channelsOf (triples : List Triple) : List (List Nat) :=
  [triples.map Triple.temporal, triples.map Triple.height, triples.map Triple.width]

def coordinates (triples : List Triple) : Set Nat := {n | ∃ t ∈ triples, n ∈ t.coords}

namespace RopeTokens

variable (tokens : RopeTokens)

def frameSize (grid : GridThw) : Nat := grid.h / tokens.mergeSize * (grid.w / tokens.mergeSize)

def gridSize (grid : GridThw) : Nat := grid.t * tokens.frameSize grid

end RopeTokens

/-- What is placed at once: a run of text or the tokens of one image. -/
inductive Block
  | text (ids : List Int)
  | image (grid : GridThw)

structure Placed where
  grid : Option GridThw
  ids : List Int
  triples : List Triple

namespace Block

variable (tokens : RopeTokens)

def grid : Block → Option GridThw
  | text _ => none
  | image grid => some grid

def ids : Block → List Int
  | text ids => ids
  | image grid => List.replicate (tokens.gridSize grid) tokens.imageTokenId

/-- A text counts on in all coordinates. The rows and columns of an image count from the start in
each of its frames, and all frames have the start for their time. -/
def triples (start : Nat) : Block → List Triple
  | text ids => (List.range ids.length).map (fun i => .diagonal (start + i))
  | image grid => (List.range (tokens.gridSize grid)).map (fun i =>
      ⟨start, start + i % tokens.frameSize grid / (grid.w / tokens.mergeSize),
        start + i % (grid.w / tokens.mergeSize)⟩)

def next (b : Block) (start : Nat) : Nat :=
  match b with
  | text ids => start + ids.length
  | image grid => start + max (grid.h / tokens.mergeSize) (grid.w / tokens.mergeSize)

def place (b : Block) (start : Nat) : Placed := ⟨b.grid, b.ids tokens, b.triples tokens start⟩

/-- There are tokens, and those of a text are no image tokens. -/
def WellFormed : Block → Prop
  | text ids => ids ≠ [] ∧ tokens.imageTokenId ∉ ids
  | image grid => 0 < tokens.gridSize grid

end Block

section Blocks

variable {tokens : RopeTokens} {b : Block} {start : Nat}

theorem length_triples (b : Block) (start : Nat) :
    (b.triples tokens start).length = (b.ids tokens).length := by
  cases b <;> simp [Block.triples, Block.ids]

theorem pos_of_gridSize {grid : GridThw} (some : 0 < tokens.gridSize grid) :
    0 < grid.t ∧ 0 < grid.h / tokens.mergeSize ∧ 0 < grid.w / tokens.mergeSize := by
  have frame : 0 < tokens.frameSize grid := Nat.pos_of_mul_pos_left some
  exact ⟨Nat.pos_of_mul_pos_right some, Nat.pos_of_mul_pos_right frame,
    Nat.pos_of_mul_pos_left frame⟩

theorem mergeSize_pos {grid : GridThw} (some : 0 < tokens.gridSize grid) :
    0 < tokens.mergeSize := by
  obtain ⟨-, rows, -⟩ := pos_of_gridSize some
  refine Nat.pos_of_ne_zero (fun zero => ?_)
  rw [zero, Nat.div_zero] at rows
  exact Nat.lt_irrefl 0 rows

theorem frameSize_le_gridSize {grid : GridThw} (some : 0 < tokens.gridSize grid) :
    tokens.frameSize grid ≤ tokens.gridSize grid :=
  Nat.le_mul_of_pos_left _ (pos_of_gridSize some).1

theorem Block.WellFormed.ids_ne_nil (good : b.WellFormed tokens) : b.ids tokens ≠ [] := by
  cases b with
  | text ids => exact good.1
  | image grid => exact List.ne_nil_of_length_pos (List.length_replicate.symm ▸ good)

theorem Block.WellFormed.lt_next (good : b.WellFormed tokens) (start : Nat) :
    start < b.next tokens start := by
  cases b with
  | text ids => exact Nat.lt_add_of_pos_right (List.length_pos_iff.mpr good.1)
  | image grid =>
    obtain ⟨-, rows, -⟩ := pos_of_gridSize good
    exact Nat.lt_add_of_pos_right (Nat.lt_of_lt_of_le rows (Nat.le_max_left _ _))

theorem Block.WellFormed.head_triples (good : b.WellFormed tokens) (start : Nat) :
    (b.triples tokens start).head? = some (.diagonal start) := by
  cases b with
  | text ids =>
    obtain ⟨id, ids, rfl⟩ := List.exists_cons_of_ne_nil good.1
    simp [triples, List.range_succ_eq_map]
  | image grid =>
    obtain ⟨n, size⟩ := Nat.exists_eq_succ_of_ne_zero (Nat.ne_of_gt good)
    simp [triples, size, List.range_succ_eq_map, Triple.diagonal]

theorem mem_coordinates {triples : List Triple} {n : Nat} :
    n ∈ coordinates triples ↔ ∃ t ∈ triples, n = t.temporal ∨ n = t.height ∨ n = t.width := by
  simp [coordinates, Triple.coords]

theorem greatest_text {ids : List Int} (some : ids ≠ []) (start : Nat) :
    IsGreatest (coordinates ((Block.text ids).triples tokens start)) (start + ids.length - 1) := by
  have room : 0 < ids.length := List.length_pos_iff.mpr some
  constructor
  · refine mem_coordinates.mpr ⟨.diagonal (start + (ids.length - 1)), ?_, .inl ?_⟩
    · exact List.mem_map.mpr ⟨ids.length - 1, List.mem_range.mpr (Nat.sub_one_lt_of_lt room), rfl⟩
    · exact Nat.add_sub_assoc room start
  · intro n member
    obtain ⟨t, there, same⟩ := mem_coordinates.mp member
    obtain ⟨i, inside, rfl⟩ := List.mem_map.mp there
    have below : i < ids.length := List.mem_range.mp inside
    simp only [Triple.diagonal, or_self] at same
    omega

theorem triple_mem_image {grid : GridThw} {i : Nat} (inside : i < tokens.gridSize grid)
    (start : Nat) :
    ⟨start, start + i % tokens.frameSize grid / (grid.w / tokens.mergeSize),
      start + i % (grid.w / tokens.mergeSize)⟩ ∈ (Block.image grid).triples tokens start :=
  List.mem_map.mpr ⟨i, List.mem_range.mpr inside, rfl⟩

theorem greatest_image {grid : GridThw} (some : 0 < tokens.gridSize grid) (start : Nat) :
    IsGreatest (coordinates ((Block.image grid).triples tokens start))
      (start + max (grid.h / tokens.mergeSize) (grid.w / tokens.mergeSize) - 1) := by
  obtain ⟨-, rows, columns⟩ := pos_of_gridSize some
  have room := frameSize_le_gridSize some
  have token := fun i inside => @triple_mem_image tokens grid i inside start
  generalize hrows : grid.h / tokens.mergeSize = H at rows ⊢
  generalize hcolumns : grid.w / tokens.mergeSize = W at columns token ⊢
  have frame : tokens.frameSize grid = H * W := by rw [RopeTokens.frameSize, hrows, hcolumns]
  rw [frame] at room token
  constructor
  · by_cases tall : W ≤ H
    · have last : (H - 1) * W < H * W :=
        Nat.mul_lt_mul_of_pos_right (Nat.sub_one_lt_of_lt rows) columns
      refine mem_coordinates.mpr ⟨_, token ((H - 1) * W) (Nat.lt_of_lt_of_le last room),
        .inr (.inl ?_)⟩
      rw [max_eq_left tall, Nat.mod_eq_of_lt last, Nat.mul_div_cancel _ columns]
      exact Nat.add_sub_assoc rows start
    · have last : W - 1 < W := Nat.sub_one_lt_of_lt columns
      have within : W - 1 < H * W := Nat.lt_of_lt_of_le last (Nat.le_mul_of_pos_left W rows)
      refine mem_coordinates.mpr ⟨_, token (W - 1) (Nat.lt_of_lt_of_le within room), .inr (.inr ?_)⟩
      rw [max_eq_right (Nat.le_of_not_le tall), Nat.mod_eq_of_lt last]
      exact Nat.add_sub_assoc columns start
  · intro n member
    obtain ⟨t, there, same⟩ := mem_coordinates.mp member
    obtain ⟨i, -, rfl⟩ := List.mem_map.mp there
    simp only [frame, hcolumns] at same
    have row : i % (H * W) / W < H :=
      Nat.div_lt_of_lt_mul (Nat.mul_comm H W ▸ Nat.mod_lt i (Nat.mul_pos rows columns))
    have column : i % W < W := Nat.mod_lt i columns
    omega

/-- The largest coordinate of a block is one below where the next block starts. -/
theorem Block.WellFormed.greatest (good : b.WellFormed tokens) (start : Nat) :
    IsGreatest (coordinates (b.triples tokens start)) (b.next tokens start - 1) := by
  cases b with
  | text ids => exact greatest_text good.1 start
  | image grid => exact greatest_image good start

/-- Two tokens of an image have one triple exactly when they stand at one place of their frames. -/
theorem Block.image_triples_eq_iff {grid : GridThw} {i j : Nat} (hi : i < tokens.gridSize grid)
    (hj : j < tokens.gridSize grid) :
    ((Block.image grid).triples tokens start)[i]? = ((Block.image grid).triples tokens start)[j]? ↔
      i % tokens.frameSize grid = j % tokens.frameSize grid := by
  have inFrame : ∀ k,
    k % tokens.frameSize grid % (grid.w / tokens.mergeSize) = k % (grid.w / tokens.mergeSize) :=
    fun k => Nat.mod_mul_left_mod k (grid.h / tokens.mergeSize) (grid.w / tokens.mergeSize)
  simp only [triples, List.getElem?_map, List.getElem?_range hi, List.getElem?_range hj,
    Option.map_some, Option.some.injEq, Triple.mk.injEq, true_and, Nat.add_left_cancel_iff]
  constructor
  · rintro ⟨row, column⟩
    rw [← Nat.div_add_mod (i % tokens.frameSize grid) (grid.w / tokens.mergeSize), inFrame, row,
      column, ← inFrame j, Nat.div_add_mod]
  · intro same
    exact ⟨by rw [same], by rw [← inFrame i, same, inFrame j]⟩

theorem textBlock_eq (tokens : RopeTokens) (ids : List Int) (start : Nat) :
    textBlock ids.length start = channelsOf ((Block.text ids).triples tokens start) := by
  simp [textBlock, channelsOf, Block.triples, Triple.diagonal, List.replicate,
    Function.comp_def, Nat.add_comm]

theorem gridBlock_eq (grid : GridThw) (start : Nat) :
    gridBlock grid.t (grid.h / tokens.mergeSize) (grid.w / tokens.mergeSize) start =
      channelsOf ((Block.image grid).triples tokens start) := by
  have rows : (List.range (tokens.gridSize grid)).map
    (fun i => i % tokens.frameSize grid / (grid.w / tokens.mergeSize)) =
      (List.range grid.t).flatMap (fun _ => (List.range (grid.h / tokens.mergeSize)).flatMap
        (List.replicate (grid.w / tokens.mergeSize))) := by
    refine (map_range_mul _ _ (fun _ k => k / (grid.w / tokens.mergeSize))).trans
      (List.flatMap_congr (fun _ _ => ?_))
    refine (map_range_mul _ _ (fun row _ => row)).trans (List.flatMap_congr (fun row _ => ?_))
    rw [List.map_const', List.length_range]
  have columns : (List.range (tokens.gridSize grid)).map
    (fun i => i % (grid.w / tokens.mergeSize)) =
      (List.range grid.t).flatMap (fun _ => (List.range (grid.h / tokens.mergeSize)).flatMap
        (fun _ => List.range (grid.w / tokens.mergeSize))) := by
    have inFrame : ∀ k ∈ List.range (tokens.gridSize grid), k % (grid.w / tokens.mergeSize) =
        k % tokens.frameSize grid % (grid.w / tokens.mergeSize) :=
          fun k _ => (Nat.mod_mul_left_mod k _ _).symm
    rw [List.map_congr_left inFrame]
    refine (map_range_mul _ _ (fun _ k => k % (grid.w / tokens.mergeSize))).trans
      (List.flatMap_congr (fun _ _ => ?_))
    refine (map_range_mul _ _ (fun _ column => column)).trans (List.flatMap_congr (fun _ _ => ?_))
    exact List.map_id' _
  have frames : (List.range (tokens.gridSize grid)).map (fun _ => 0) =
    (List.range grid.t).flatMap (fun i =>
      List.replicate (grid.h / tokens.mergeSize * (grid.w / tokens.mergeSize)) (i * 0 * 2)) := by
    refine (map_range_mul _ _ (fun _ _ => 0)).trans (List.flatMap_congr (fun _ _ => ?_))
    rw [List.map_const', List.length_range]
    rfl
  simp only [gridBlock, channelsOf, Block.triples, List.map_cons, List.map_nil,
    List.map_map, ← rows, ← columns, ← frames]
  simp [Function.comp_def, Nat.add_comm]

end Blocks

end Verl.Dataset
