import Mathlib.Algebra.Order.BigOperators.Group.List
import Mathlib.Algebra.Order.Group.Nat
import Verl.Base.Reindex
import Verl.SeqlenBalancing.Partitions

/-! `rearrange_micro_batches` and `get_reverse_idx`. A `TensorDict` is read here
by its rows: slicing, concatenation and indexing on dim 0 move whole rows, so a
row is its attention mask together with its cells in every other column. -/
namespace Verl.SeqlenBalancing

structure Row (α : Type) where
  attentionMask : List Bool
  cells : α
  deriving DecidableEq

def Row.seqLenEffective {α : Type} (row : Row α) : Nat := row.attentionMask.count true

structure TokenBatch (α : Type) where
  maxSeqLen : Nat
  rows : List (Row α)
  rect : ∀ row ∈ rows, row.attentionMask.length = maxSeqLen

variable {α : Type}

def TokenBatch.seqLens (batch : TokenBatch α) : List Nat := batch.rows.map Row.seqLenEffective

def splitCount (size n : Nat) : Nat := max 1 ((n + size - 1) / size)

def TokenBatch.block (batch : TokenBatch α) (size j : Nat) : TokenBatch α where
  maxSeqLen := batch.maxSeqLen
  rows := Verl.block size j batch.rows
  rect row member := batch.rect row (mem_of_mem_block member)

def TokenBatch.split (batch : TokenBatch α) (size : Nat) : List (TokenBatch α) :=
  (List.range (splitCount size batch.rows.length)).map (batch.block size)

theorem TokenBatch.split_rows (batch : TokenBatch α) (size : Nat) :
    (batch.split size).map TokenBatch.rows = Verl.split size batch.rows := by
  simp [TokenBatch.split, Verl.split, blocks, splitCount, TokenBatch.block, Function.comp_def]

def ceildiv (a b : Nat) : Py Nat :=
  if b = 0 then .error .zeroDivision else .ok (-(Int.fdiv a (-b))).toNat

/-- The counts of the other ranks when `dist` is initialized; `none` when it is not. -/
abbrev Peers := Option (List Nat)

def Peers.allReduceMax (peers : Peers) (own : Nat) : Nat :=
  match peers with
  | none => own
  | some counts => counts.foldl max own

def numMicroBatches (batch : TokenBatch α) (maxTokenLen : Nat) (peers : Peers) : Py Nat := do
  let own ← ceildiv batch.seqLens.sum maxTokenLen
  return peers.allReduceMax own

def rearrangeMicroBatches (batch : TokenBatch α) (maxTokenLen : Nat) (peers : Peers) :
    Py (List (List (Row α)) × List (List Nat)) := do
  let width := batch.maxSeqLen
  pyAssert (width ≤ maxTokenLen)
    s!"max_token_len must be greater than the sequence length. Got max_token_len={maxTokenLen} and max_seq_len={width}"
  let count ← numMicroBatches batch maxTokenLen peers
  pyAssert (count ≤ batch.rows.length) ""
  let microBszIdx ← getSeqlenBalancedPartitions batch.seqLens count false
  return (microBszIdx.map (fun partition =>
    partition.flatMap (fun idx => slice idx (idx + 1) batch.rows)), microBszIdx)

def getReverseIdx (idxMap : List Nat) : Py (List Nat) := scatter idxMap

theorem ceildiv_eq {a b : Nat} (positive : 0 < b) :
    ceildiv a b = .ok (if b ∣ a then a / b else a / b + 1) := by
  have nonzero : (b : Int) ≠ 0 := by omega
  have whole : (b : Int) ∣ a ↔ b ∣ a := Int.natCast_dvd_natCast
  unfold ceildiv
  rw [if_neg (by omega), Int.fdiv_neg nonzero, ← Int.ofNat_fdiv]
  by_cases h : b ∣ a
  · rw [if_pos h, if_pos (whole.mpr h), Int.neg_neg, Int.toNat_natCast]
  · rw [if_neg h, if_neg (mt whole.mp h)]
    congr 1
    generalize a / b = q
    omega

theorem ceildiv_spec {a b : Nat} (positive : 0 < b) :
    ∃ c, ceildiv a b = .ok c ∧ (0 < a → 0 < c) ∧ ∀ n, a ≤ n * b → c ≤ n := by
  refine ⟨_, ceildiv_eq positive, ?_, ?_⟩
  · intro ha
    split
    · rename_i h
      exact Nat.div_pos (Nat.le_of_dvd ha h) positive
    · exact Nat.succ_pos _
  · intro n hn
    split
    · exact (Nat.div_le_iff_le_mul_add_pred positive).mpr (by rw [Nat.mul_comm]; omega)
    · rename_i h
      have ne : a ≠ n * b := fun e => h (e ▸ Nat.dvd_mul_left b n)
      exact Nat.div_lt_of_lt_mul (by rw [Nat.mul_comm]; omega)

theorem foldl_max_le {bound : Nat} (counts : List Nat) (own : Nat) (hown : own ≤ bound)
    (each : ∀ c ∈ counts, c ≤ bound) : counts.foldl max own ≤ bound := by
  induction counts generalizing own with
  | nil => exact hown
  | cons c counts ih =>
    exact ih _ (Nat.max_le.mpr ⟨hown, each c (by simp)⟩) (fun d hd => each d (by simp [hd]))

theorem le_foldl_max (counts : List Nat) (own : Nat) : own ≤ counts.foldl max own := by
  induction counts generalizing own with
  | nil => exact Nat.le_refl _
  | cons c counts ih => exact (Nat.le_max_left _ _).trans (ih _)

theorem mem_le_foldl_max {counts : List Nat} {c : Nat} (member : c ∈ counts) (own : Nat) :
    c ≤ counts.foldl max own := by
  induction counts generalizing own with
  | nil => cases member
  | cons d counts ih =>
    cases member with
    | head => exact (Nat.le_max_right own c).trans (le_foldl_max counts _)
    | tail _ inside => exact ih inside _

def Peers.Within (peers : Peers) (rows : Nat) : Prop :=
  ∀ counts, peers = some counts → ∀ c ∈ counts, c ≤ rows

theorem Peers.allReduceMax_bounds {peers : Peers} {rows own : Nat} (within : peers.Within rows)
    (hown : own ≤ rows) : own ≤ peers.allReduceMax own ∧ peers.allReduceMax own ≤ rows := by
  cases peers with
  | none => exact ⟨Nat.le_refl _, hown⟩
  | some counts => exact ⟨le_foldl_max counts own, foldl_max_le counts own hown (within counts rfl)⟩

theorem seqLens_sum_le (batch : TokenBatch α) :
    batch.seqLens.sum ≤ batch.rows.length * batch.maxSeqLen := by
  have each : ∀ len ∈ batch.seqLens, len ≤ batch.maxSeqLen := by
    intro len member
    obtain ⟨row, hrow, rfl⟩ := List.mem_map.mp member
    exact List.count_le_length.trans (batch.rect row hrow).le
  simpa [TokenBatch.seqLens] using List.sum_le_card_nsmul batch.seqLens batch.maxSeqLen each

theorem partitions_bounds {seqlenList : List Nat} {k : Nat} {partitions : List (List Nat)}
    (returned : getSeqlenBalancedPartitions seqlenList k false = .ok partitions) :
    1 ≤ k ∧ k ≤ seqlenList.length := by
  simp only [getSeqlenBalancedPartitions, bind_ok_iff, pyAssert_ok_iff,
    decide_eq_true_eq] at returned
  obtain ⟨_, enough, raw, run, _⟩ := returned
  refine ⟨Nat.one_le_iff_ne_zero.mpr ?_, enough⟩
  rintro rfl
  cases hitems : initialItems seqlenList 0 false with
  | nil => simp [karmarkarKarp, hitems, mergeLoop, pushAll, pyGet] at run
  | cons items rest =>
    have one : items.length = 1 := by
      have member : items ∈ initialItems seqlenList 0 false := by simp [hitems]
      obtain ⟨item, _, rfl⟩ := List.mem_map.mp member
      rfl
    have fails : State.init items 0 = .error .index := by simp [State.init, one]
    simp [karmarkarKarp, hitems, fails] at run

theorem rearrangeMicroBatches_ok {batch : TokenBatch α} {maxTokenLen : Nat} {peers : Peers}
    {micro : List (List (Row α))} {indices : List (List Nat)}
    (returned : rearrangeMicroBatches batch maxTokenLen peers = .ok (micro, indices)) :
    (∃ count, numMicroBatches batch maxTokenLen peers = .ok count ∧
      getSeqlenBalancedPartitions batch.seqLens count false = .ok indices) ∧
    indices.flatten.Perm (List.range batch.rows.length) ∧
    micro.flatten = pick batch.rows indices.flatten := by
  simp only [rearrangeMicroBatches, bind_ok_iff, pyAssert_ok_iff, pure_eq_ok, Except.ok.injEq,
    Prod.mk.injEq] at returned
  obtain ⟨_, _, count, hcount, _, _, partitions, hparts, rfl, rfl⟩ := returned
  obtain ⟨positive, enough⟩ := partitions_bounds hparts
  obtain ⟨s, hs, flat, _⟩ :=
    getSeqlenBalancedPartitions_spec _ count false positive enough (by simp)
  refine ⟨⟨count, hcount, hparts⟩, ?_, ?_⟩
  · rw [hs] at hparts
    cases Except.ok.inj hparts
    simpa [TokenBatch.seqLens] using (sorted_flatten_perm s.getPartitions).trans flat
  · rw [← slices_eq_pick, List.flatMap_def, List.map_flatten, List.flatten_flatten]
    simp [List.flatMap_def, Function.comp_def]

/-- A count that the rows can fill gives as many micro batches, none of them empty. -/
theorem rearrangeMicroBatches_of_count {batch : TokenBatch α} {maxTokenLen : Nat} {peers : Peers}
    {count : Nat} (wide : batch.maxSeqLen ≤ maxTokenLen)
    (counted : numMicroBatches batch maxTokenLen peers = .ok count) (one : 1 ≤ count)
    (enough : count ≤ batch.rows.length) :
    ∃ micro indices, rearrangeMicroBatches batch maxTokenLen peers = .ok (micro, indices) ∧
      micro.length = count ∧ ∀ rows ∈ micro, rows ≠ [] := by
  have within : count ≤ batch.seqLens.length := by simpa [TokenBatch.seqLens] using enough
  obtain ⟨s, hs, flat, nonempty, -⟩ :=
    getSeqlenBalancedPartitions_spec batch.seqLens count false one within (by simp)
  have run : rearrangeMicroBatches batch maxTokenLen peers =
      .ok ((s.getPartitions.map (fun p => p.insertionSort (· ≤ ·))).map
        (fun partition => partition.flatMap (fun idx => slice idx (idx + 1) batch.rows)),
        s.getPartitions.map (fun p => p.insertionSort (· ≤ ·))) := by
    simp only [rearrangeMicroBatches, wide, counted, enough, hs, decide_true, pyAssert_true,
      ok_bind, pure_eq_ok]
  refine ⟨_, _, run, by simp [State.getPartitions, s.size], ?_⟩
  intro rows member empty
  obtain ⟨_, sorted, rfl⟩ := List.mem_map.mp member
  obtain ⟨p, hp, rfl⟩ := List.mem_map.mp sorted
  obtain ⟨i, listed⟩ := List.exists_mem_of_ne_nil p (nonempty p hp)
  have inside : i < batch.rows.length := by
    have counted := flat.mem_iff.mp (List.mem_flatten.mpr ⟨p, hp, listed⟩)
    simpa [TokenBatch.seqLens] using counted
  have cut : slice i (i + 1) batch.rows = [] :=
    List.flatMap_eq_nil_iff.mp empty i ((List.perm_insertionSort _ p).mem_iff.mpr listed)
  have length : (slice i (i + 1) batch.rows).length = 0 := by rw [cut]; rfl
  simp [slice] at length
  omega

/-- The split of a batch with a valid token never trips one of its assertions. -/
theorem rearrangeMicroBatches_total (batch : TokenBatch α) (maxTokenLen : Nat) (peers : Peers)
    (wide : batch.maxSeqLen ≤ maxTokenLen) (valid : 1 ≤ batch.seqLens.sum)
    (within : peers.Within batch.rows.length) :
    ∃ micro indices, rearrangeMicroBatches batch maxTokenLen peers = .ok (micro, indices) := by
  have tokens : batch.seqLens.sum ≤ batch.rows.length * maxTokenLen :=
    (seqLens_sum_le batch).trans (Nat.mul_le_mul_left _ wide)
  have positive : 0 < maxTokenLen := by
    rcases Nat.eq_zero_or_pos maxTokenLen with h | h
    · rw [h] at tokens
      omega
    · exact h
  obtain ⟨own, hown, hpos, hle⟩ := ceildiv_spec (a := batch.seqLens.sum) positive
  obtain ⟨low, high⟩ := Peers.allReduceMax_bounds within (hle _ tokens)
  have one : 1 ≤ peers.allReduceMax own := (hpos valid).trans_le low
  have counted : numMicroBatches batch maxTokenLen peers = .ok (peers.allReduceMax own) := by
    simp [numMicroBatches, hown]
  obtain ⟨micro, indices, run, -⟩ := rearrangeMicroBatches_of_count wide counted one high
  exact ⟨micro, indices, run⟩

theorem rearrangeMicroBatches_iff {batch : TokenBatch α} {maxTokenLen : Nat} {peers : Peers}
    (valid : 1 ≤ batch.seqLens.sum) :
    (∃ micro indices, rearrangeMicroBatches batch maxTokenLen peers = .ok (micro, indices)) ↔
      batch.maxSeqLen ≤ maxTokenLen ∧ peers.Within batch.rows.length := by
  constructor
  · rintro ⟨micro, indices, returned⟩
    simp only [rearrangeMicroBatches, numMicroBatches, bind_ok_iff, pyAssert_ok_iff,
      decide_eq_true_eq, pure_eq_ok, Except.ok.injEq] at returned
    obtain ⟨_, wide, _, ⟨own, -, rfl⟩, _, enough, -⟩ := returned
    refine ⟨wide, ?_⟩
    rintro counts rfl c member
    exact (mem_le_foldl_max member own).trans enough
  · rintro ⟨wide, within⟩
    exact rearrangeMicroBatches_total batch maxTokenLen peers wide valid within

theorem takeRows_getReverseIdx {β : Type} {xs : List β} {indices : List Nat}
    (perm : indices.Perm (List.range xs.length)) :
    ∃ rev, getReverseIdx indices = .ok rev ∧ takeRows (pick xs indices) rev = .ok xs := by
  obtain ⟨rev, reversed, order, -, right⟩ := scatter_spec perm
  have length : (pick xs indices).length = xs.length := by
    rw [length_pick (perm_inside perm), perm_length perm]
  refine ⟨rev, reversed, ?_⟩
  rw [takeRows_perm order length, pick_pick (perm_inside perm), right, pick_range]

section Group

def groupCounts (group : List (TokenBatch α)) (maxTokenLen : Nat) : Py (List Nat) :=
  group.mapM (fun batch => ceildiv batch.seqLens.sum maxTokenLen)

/-- `rearrange_micro_batches` on every rank of a group, which meet in the reduction. -/
def rearrangeGroup (group : List (TokenBatch α)) (maxTokenLen : Nat) :
    Py (List (List (List (Row α)) × List (List Nat))) := do
  let counts ← groupCounts group maxTokenLen
  group.mapM (fun batch => rearrangeMicroBatches batch maxTokenLen (some counts))

theorem foldl_max_of_mem {counts : List Nat} {own : Nat} (member : own ∈ counts) :
    counts.foldl max own = counts.foldl max 0 := by
  apply Nat.le_antisymm
  · exact foldl_max_le counts own (mem_le_foldl_max member 0) (fun c inside =>
      mem_le_foldl_max inside 0)
  · exact foldl_max_le counts 0 (Nat.zero_le _) (fun c inside => mem_le_foldl_max inside own)

/-- What every rank asks for is there, is positive if it has a token, and is at most its rows. -/
theorem groupCounts_spec {group : List (TokenBatch α)} {maxTokenLen rows : Nat}
    (positive : 0 < maxTokenLen)
    (tokens : ∀ batch ∈ group, batch.seqLens.sum ≤ rows * maxTokenLen) :
    ∃ counts, groupCounts group maxTokenLen = .ok counts ∧ (∀ c ∈ counts, c ≤ rows) ∧
      ∀ batch ∈ group, ∃ c ∈ counts, ceildiv batch.seqLens.sum maxTokenLen = .ok c ∧
        (0 < batch.seqLens.sum → 0 < c) := by
  obtain ⟨counts, counted, each⟩ :=
    mapM_forall₂ (fun batch : TokenBatch α => ceildiv batch.seqLens.sum maxTokenLen)
    (fun batch c => ceildiv batch.seqLens.sum maxTokenLen = .ok c ∧
      (0 < batch.seqLens.sum → 0 < c) ∧ c ≤ rows) group
    (by
      intro batch member
      obtain ⟨c, hc, pos, le⟩ := ceildiv_spec (a := batch.seqLens.sum) positive
      exact ⟨c, hc, hc, pos, le rows (tokens batch member)⟩)
  refine ⟨counts, counted, ?_, ?_⟩
  · intro c member
    obtain ⟨batch, -, -, -, le⟩ := exists_left_of_forall₂ each member
    exact le
  · intro batch member
    obtain ⟨c, hc, counted, pos, -⟩ := exists_right_of_forall₂ each member
    exact ⟨c, hc, counted, pos⟩

/-- Ranks with equally many rows of one width run the same number of non-empty micro batches,
also where a rank has no valid token of its own. -/
theorem rearrangeGroup_same_count (group : List (TokenBatch α)) (maxTokenLen rows width : Nat)
    (equalRows : ∀ batch ∈ group, batch.rows.length = rows)
    (equalWidth : ∀ batch ∈ group, batch.maxSeqLen = width)
    (wide : width ≤ maxTokenLen) (valid : ∃ batch ∈ group, 1 ≤ batch.seqLens.sum) :
    ∃ counts outs, groupCounts group maxTokenLen = .ok counts ∧
      rearrangeGroup group maxTokenLen = .ok outs ∧
      outs.length = group.length ∧ 1 ≤ counts.foldl max 0 ∧
      ∀ out ∈ outs, out.1.length = counts.foldl max 0 ∧ ∀ micro ∈ out.1, micro ≠ [] := by
  have tokens : ∀ batch ∈ group, batch.seqLens.sum ≤ rows * maxTokenLen := by
    intro batch member
    calc batch.seqLens.sum ≤ batch.rows.length * batch.maxSeqLen := seqLens_sum_le batch
      _ = rows * width := by rw [equalRows batch member, equalWidth batch member]
      _ ≤ rows * maxTokenLen := Nat.mul_le_mul_left _ wide
  obtain ⟨full, inside, token⟩ := valid
  have positive : 0 < maxTokenLen := by
    apply Nat.pos_of_ne_zero
    intro zero
    have none := tokens full inside
    rw [zero] at none
    omega
  obtain ⟨counts, counted, bound, own⟩ := groupCounts_spec positive tokens
  have below : counts.foldl max 0 ≤ rows := foldl_max_le counts 0 (Nat.zero_le _) bound
  have one : 1 ≤ counts.foldl max 0 := by
    obtain ⟨c, hc, -, pos⟩ := own full inside
    exact (pos token).trans_le (mem_le_foldl_max hc 0)
  obtain ⟨outs, ran, split⟩ :=
    mapM_forall₂ (fun batch => rearrangeMicroBatches batch maxTokenLen (some counts))
    (fun _ out => out.1.length = counts.foldl max 0 ∧ ∀ micro ∈ out.1, micro ≠ []) group
    (by
      intro batch member
      obtain ⟨c, hc, asked, -⟩ := own batch member
      have reduced : numMicroBatches batch maxTokenLen (some counts) =
          .ok (counts.foldl max 0) := by
        simp [numMicroBatches, asked, Peers.allReduceMax, foldl_max_of_mem hc]
      obtain ⟨micro, indices, run, length, nonempty⟩ := rearrangeMicroBatches_of_count
        ((equalWidth batch member).trans_le wide) reduced one
          (below.trans_eq (equalRows batch member).symm)
      exact ⟨(micro, indices), run, length, nonempty⟩)
  refine ⟨counts, outs, counted, ?_, (List.Forall₂.length_eq split).symm, one, ?_⟩
  · rw [rearrangeGroup, counted, ok_bind, ran]
  · intro out member
    obtain ⟨_, -, result⟩ := exists_left_of_forall₂ split member
    exact result

def twoRows (first second : List Bool) (width : first.length = 2 ∧ second.length = 2) :
    TokenBatch Unit where
  maxSeqLen := 2
  rows := [⟨first, ()⟩, ⟨second, ()⟩]
  rect := by simp [width.1, width.2]

theorem rearrangeGroup_same_count_idle_rank :
    ∃ counts outs, groupCounts [twoRows [true, true] [true, true] ⟨rfl, rfl⟩,
      twoRows [false, false] [false, false] ⟨rfl, rfl⟩] 2 =
        .ok counts ∧
      rearrangeGroup [twoRows [true, true] [true, true] ⟨rfl, rfl⟩,
        twoRows [false, false] [false, false] ⟨rfl, rfl⟩] 2 =
        .ok outs ∧ outs.length = 2 ∧ 1 ≤ counts.foldl max 0 ∧
      ∀ out ∈ outs, out.1.length = counts.foldl max 0 ∧ ∀ micro ∈ out.1, micro ≠ [] := by
  apply rearrangeGroup_same_count _ 2 2 2
  · simp [twoRows]
  · simp [twoRows]
  · exact le_rfl
  · exact ⟨_, List.mem_cons_self, by decide⟩

end Group

end Verl.SeqlenBalancing
