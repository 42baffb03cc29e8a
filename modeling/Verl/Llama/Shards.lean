import Verl.Llama.Weights

/-! The saver's arithmetic undoes the loader's: for every kind of weight the shards of
the tensor parallel ranks are put together to the weight they were cut from. -/
namespace Verl.Llama

variable {α : Type}

theorem width_eq {rows cols : Nat} {w : Weight α} (rect : Rect rows cols w) (positive : 0 < rows) :
    width w = cols := by
  cases w with
  | nil =>
    have length := rect.rows
    simp at length
    omega
  | cons row w => exact rect.cols row List.mem_cons_self

theorem shape_eq {rows cols : Nat} {w : Weight α} (rect : Rect rows cols w) (positive : 0 < rows) :
    shape w = (rows, cols) := by
  rw [shape, rect.rows, width_eq rect positive]

theorem Rect.replicate (rows cols : Nat) (x : α) :
    Rect rows cols (List.replicate rows (List.replicate cols x)) where
  rows := List.length_replicate
  cols := fun row member => by rw [List.eq_of_mem_replicate member, List.length_replicate]

theorem Rect.append {a b cols : Nat} {v w : Weight α} (first : Rect a cols v)
    (second : Rect b cols w) :
    Rect (a + b) cols (v ++ w) where
  rows := by rw [List.length_append, first.rows, second.rows]
  cols := by
    intro row member
    rcases List.mem_append.mp member with h | h
    · exact first.cols row h
    · exact second.cols row h

theorem Rect.slice {rows cols start stop : Nat} {w : Weight α} (rect : Rect rows cols w)
    (order : start ≤ stop)
    (inside : stop ≤ rows) : Rect (stop - start) cols (slice start stop w) where
  rows := by
    rw [Verl.slice, List.length_take, List.length_drop, rect.rows]
    omega
  cols := fun row member => rect.cols row (List.mem_of_mem_drop (List.mem_of_mem_take member))

theorem Rect.block {count size cols i : Nat} {w : Weight α} (rect : Rect (count * size) cols w)
    (hi : i < count) :
    Rect size cols (block size i w) := by
  have fits : (i + 1) * size ≤ count * size := Nat.mul_le_mul_right size hi
  have cut := rect.slice (Nat.mul_le_mul_right size (Nat.le_succ i)) fits
  have length : (i + 1) * size - i * size = size := by rw [Nat.succ_mul]; omega
  rwa [length] at cut

section Chunk

variable {count size : Nat} (positive : 0 < count) (some : 0 < size)

include positive

theorem chunkSize_eq : (count * size + count - 1) / count = size := by
  have split : count * size + count - 1 = count * size + (count - 1) := by omega
  rw [split, Nat.mul_add_div positive, Nat.div_eq_of_lt (by omega), Nat.add_zero]

include some

theorem chunkCount_eq : max 1 ((count * size + size - 1) / size) = count := by
  have split : count * size + size - 1 = size * count + (size - 1) := by
    rw [Nat.mul_comm size]; omega
  rw [split, Nat.mul_add_div some, Nat.div_eq_of_lt (by omega), Nat.add_zero]
  omega

theorem chunk_rows {w : Weight α} (length : w.length = count * size) :
    chunk .rows count w = blocks size count w := by
  simp only [chunk, split, length, chunkSize_eq positive, chunkCount_eq positive some]

theorem chunk_columns {w : Weight α} (length : width w = count * size) :
    chunk .columns count w = (List.range count).map (fun i => w.map (block size i)) := by
  simp only [chunk, length, chunkSize_eq positive, chunkCount_eq positive some]

end Chunk

theorem concat_rows (cols : Nat) {ws : List (Weight α)} (nonempty : ws ≠ [])
    (same : ∀ w ∈ ws, width w = cols) :
    concat .rows ws = .ok ws.flatten := by
  cases ws with
  | nil => contradiction
  | cons first rest =>
    have all : rest.all (fun w => width w == width first) = true := by
      simp only [List.all_eq_true, beq_iff_eq]
      intro w member
      rw [same w (List.mem_cons_of_mem _ member), same first List.mem_cons_self]
    simp [concat, all]

theorem foldl_zipWith_columns (w : Weight α) (f : Nat → List α → List α) (g : List α → List α)
    (is : List Nat) : (is.map (fun i => w.map (f i))).foldl (List.zipWith (· ++ ·)) (w.map g) =
      w.map (fun row => g row ++ (is.map (fun i => f i row)).flatten) := by
  induction is generalizing g with
  | nil => simp
  | cons i is ih =>
    have step : List.zipWith (· ++ ·) (w.map g) (w.map (f i)) =
        w.map (fun row => g row ++ f i row) := by
      rw [List.zipWith_map, List.zipWith_self]
    rw [List.map_cons, List.foldl_cons, step, ih]
    simp

theorem concat_columns_map (w : Weight α) (f : Nat → List α → List α) {count : Nat}
    (positive : 0 < count) :
    concat .columns ((List.range count).map (fun i => w.map (f i))) =
      .ok (w.map (fun row => ((List.range count).map (fun i => f i row)).flatten)) := by
  obtain ⟨n, rfl⟩ := Nat.exists_eq_succ_of_ne_zero (Nat.pos_iff_ne_zero.mp positive)
  have same : (((List.range n).map Nat.succ).map (fun i => w.map (f i))).all
      (fun v => v.length == (w.map (f 0)).length) = true := by
    simp
  rw [List.range_succ_eq_map, List.map_cons, concat, if_pos same, foldl_zipWith_columns]
  simp

theorem concat_columns {rows count size : Nat} {w : Weight α} (rect : Rect rows (count * size) w)
    (positive : 0 < count) :
    concat .columns ((List.range count).map (fun i => w.map (block size i))) = .ok w := by
  have whole : w.map (fun row => ((List.range count).map (fun i => block size i row)).flatten) =
      w := by
    conv => rhs; rw [← List.map_id w]
    apply List.map_congr_left
    intro row member
    exact flatten_blocks size count row (Nat.le_of_eq (rect.cols row member))
  rw [concat_columns_map w _ positive, whole]

theorem concat_blocks {count size cols : Nat} {w : Weight α} (rect : Rect (count * size) cols w)
    (positive : 0 < count) (some : 0 < size) : concat .rows (blocks size count w) = .ok w := by
  rw [concat_rows cols]
  · rw [flatten_blocks _ _ _ (Nat.le_of_eq rect.rows)]
  · simpa [blocks] using Nat.pos_iff_ne_zero.mp positive
  · intro v member
    obtain ⟨i, hi, rfl⟩ := List.mem_map.mp member
    exact width_eq (rect.block (List.mem_range.mp hi)) some

theorem length_parts {total count : Nat} {part : Nat → Weight α}
    (lengths : ∀ i < count, (part i).length = total) :
    ((List.range count).map part).flatten.length = count * total := by
  have each : ∀ i ∈ List.range count, (part i).length = total :=
    fun i member => lengths i (List.mem_range.mp member)
  rw [List.length_flatten, List.map_map]
  simp only [Function.comp_def]
  rw [List.map_congr_left each]
  simp

theorem fill_eq {total count : Nat} {part : Nat → Weight α}
    (lengths : ∀ i < count, (part i).length = total)
    (buffer : Weight α) (room : buffer.length = total * count) :
    (List.range count).foldlM (fun buffer i =>
      copyRows (i * total) ((i + 1) * total) (part i) buffer) buffer =
      .ok ((List.range count).map part).flatten := by
  have upTo : ∀ k ≤ count, (List.range k).foldlM
      (fun buffer i => copyRows (i * total) ((i + 1) * total) (part i) buffer) buffer =
      .ok (((List.range k).map part).flatten ++ buffer.drop (k * total)) := by
    intro k
    induction k with
    | zero => simp
    | succ k ih =>
      intro inside
      have front : ((List.range k).map part).flatten.length = k * total :=
        length_parts (fun i hi => lengths i (Nat.lt_of_lt_of_le hi (Nat.le_of_succ_le inside)))
      have enough : (k + 1) * total ≤ buffer.length := by
        rw [room, Nat.mul_comm total]
        exact Nat.mul_le_mul_right total inside
      have next : (k + 1) * total = k * total + total := Nat.succ_mul k total
      rw [List.range_succ, List.foldlM_append, ih (Nat.le_of_succ_le inside), ok_bind]
      have slot : (part k).length = (slice (k * total) ((k + 1) * total)
          (((List.range k).map part).flatten ++ buffer.drop (k * total))).length := by
        rw [lengths k inside, slice, ← front, List.drop_left, List.length_take,
          List.length_drop, front]
        omega
      have rest : (((List.range k).map part).flatten ++ buffer.drop (k * total)).drop
        ((k + 1) * total) =
          buffer.drop ((k + 1) * total) := by
        rw [next, ← front, List.drop_length_add_append, front, List.drop_drop]
      have kept : (((List.range k).map part).flatten ++ buffer.drop (k * total)).take (k * total) =
          ((List.range k).map part).flatten := by
        rw [← front, List.take_left]
      simp only [List.foldlM_cons, List.foldlM_nil, copyRows, if_pos slot, pure_eq_ok,
        ok_bind, rest, kept]
      simp
  rw [upTo count (Nat.le_refl count), Nat.mul_comm count, ← room, List.drop_length, List.append_nil]

theorem fillAndChunk_eq (config : Config) {tpSize total : Nat} (garbage : α) {part : Nat → Weight α}
    (lengths : ∀ i < tpSize, (part i).length = total) (positive : 0 < tpSize) (some : 0 < total) :
    fillAndChunk config tpSize garbage total part = .ok ((List.range tpSize).map part) := by
  have each : ∀ w ∈ (List.range tpSize).map part, w.length = total := by
    intro w member
    obtain ⟨i, hi, rfl⟩ := List.mem_map.mp member
    exact lengths i (List.mem_range.mp hi)
  have room : (List.replicate (total * tpSize) (List.replicate config.hiddenSize garbage)).length =
      total * tpSize := by
    simp
  have cut := blocks_flatten total _ each
  rw [List.length_map, List.length_range] at cut
  simp only [fillAndChunk, fill_eq lengths _ room, ok_bind, pure_eq_ok,
    chunk_rows positive some (length_parts lengths), cut]

theorem slice_flatten {total count : Nat} {part : Nat → Weight α}
    (lengths : ∀ i < count, (part i).length = total) {i : Nat} (hi : i < count) :
    slice (i * total) ((i + 1) * total) ((List.range count).map part).flatten = part i := by
  have each : ∀ w ∈ (List.range count).map part, w.length = total := by
    intro w member
    obtain ⟨j, hj, rfl⟩ := List.mem_map.mp member
    exact lengths j (List.mem_range.mp hj)
  have cut := blocks_flatten total _ each
  rw [List.length_map, List.length_range] at cut
  have there : i < ((List.range count).map part).length := by simpa using hi
  have read : ((List.range count).map part)[i] =
      block total i ((List.range count).map part).flatten := by
    have at_ := congrArg (fun ws : List (Weight α) => ws[i]?) cut
    simp only [blocks, List.getElem?_map, List.getElem?_range hi, Option.map_some,
      Option.some.injEq] at at_
    simpa using at_.symm
  rw [← block, ← read]
  simp

structure Config.Fits (config : Config) (tpSize : Nat) : Prop where
  tp : 0 < tpSize
  hidden : config.numAttentionHeads ∣ config.hiddenSize
  hiddenPositive : 0 < config.hiddenSize
  heads : tpSize ∣ config.numAttentionHeads
  kvPositive : 0 < config.numKeyValueHeads
  kv : tpSize ∣ config.numKeyValueHeads ∨ config.numKeyValueHeads ∣ tpSize
  intermediatePositive : 0 < config.intermediateSize
  intermediate : tpSize ∣ config.intermediateSize
  vocabPositive : 0 < config.vocabSize
  vocab : tpSize ∣ config.vocabSize

theorem filter_share {heads share : Nat} (some : 0 < heads) (positive : 0 < share) :
    (List.range (heads * share)).filter (fun i => i * heads % (heads * share) = 0) =
      (List.range heads).map (fun j => j * share) := by
  have run : ∀ j, ((List.range share).map (fun t => j * share + t)).filter
      (fun i => i * heads % (heads * share) = 0) = [j * share] := by
    intro j
    obtain ⟨n, rfl⟩ := Nat.exists_eq_succ_of_ne_zero (Nat.pos_iff_ne_zero.mp positive)
    have first : j * (n + 1) * heads % (heads * (n + 1)) = 0 := by
      rw [Nat.mul_assoc, Nat.mul_comm (n + 1), Nat.mul_mod_left]
    have later : ∀ t ∈ List.range n, ¬(j * (n + 1) + (t + 1)) * heads % (heads * (n + 1)) = 0 := by
      intro t member
      have below : (t + 1) * heads < heads * (n + 1) := by
        rw [Nat.mul_comm heads]
        exact Nat.mul_lt_mul_of_pos_right (Nat.succ_lt_succ (List.mem_range.mp member)) some
      rw [Nat.add_mul, Nat.mul_assoc, Nat.mul_comm (n + 1), Nat.mul_comm j, Nat.mul_add_mod,
        Nat.mod_eq_of_lt below]
      exact Nat.ne_of_gt (Nat.mul_pos (Nat.succ_pos t) some)
    have rest : ((List.range n).map (fun t => j * (n + 1) + (t + 1))).filter
        (fun i => i * heads % (heads * (n + 1)) = 0) = [] := by
      rw [List.filter_eq_nil_iff]
      intro i member
      obtain ⟨t, ht, rfl⟩ := List.mem_map.mp member
      simpa using later t ht
    rw [List.range_succ_eq_map, List.map_cons, List.map_map, List.filter_cons]
    simp only [Nat.add_zero, first, decide_true, if_true]
    exact congrArg _ rest
  rw [range_mul, List.filter_flatMap, List.map_eq_flatMap]
  simp only [run]

theorem mem_keptRanks {config : Config} {tpSize i : Nat} (member : i ∈ keptRanks config tpSize) :
    i < tpSize := by
  unfold keptRanks at member
  split at member
  · exact List.mem_range.mp member
  · exact List.mem_range.mp (List.mem_filter.mp member).1

namespace Config.Fits

variable {config : Config} {tpSize : Nat} (fits : config.Fits tpSize)

include fits

theorem tp_dvd_hidden : tpSize ∣ config.hiddenSize := Nat.dvd_trans fits.heads fits.hidden

theorem hidden_eq : config.hiddenSize = tpSize * qSizeTp config tpSize :=
  (Nat.mul_div_cancel' fits.tp_dvd_hidden).symm

theorem intermediate_eq : config.intermediateSize = tpSize * intermediateSizeTp config tpSize :=
  (Nat.mul_div_cancel' fits.intermediate).symm

theorem qSize_pos : 0 < qSizeTp config tpSize :=
  Nat.div_pos (Nat.le_of_dvd fits.hiddenPositive fits.tp_dvd_hidden) fits.tp

theorem intermediateSize_pos : 0 < intermediateSizeTp config tpSize :=
  Nat.div_pos (Nat.le_of_dvd fits.intermediatePositive fits.intermediate) fits.tp

theorem headSize_pos : 0 < config.hiddenSizePerHead := by
  have heads : 0 < config.numAttentionHeads := Nat.pos_of_dvd_of_pos fits.hidden fits.hiddenPositive
  exact Nat.div_pos (Nat.le_of_dvd fits.hiddenPositive fits.hidden) heads

theorem kv_even (enough : config.numKeyValueHeads ≥ tpSize) :
    config.hiddenSizePerHead * config.numKeyValueHeads = tpSize * kvSizeTp config tpSize := by
  have divides : tpSize ∣ config.numKeyValueHeads := by
    rcases fits.kv with h | h
    · exact h
    · have same : tpSize = config.numKeyValueHeads :=
        Nat.le_antisymm enough (Nat.le_of_dvd fits.tp h)
      exact same ▸ Nat.dvd_refl tpSize
  rw [kvSizeTp, if_pos enough, Nat.mul_div_cancel' (Nat.dvd_mul_left_of_dvd divides _)]

theorem kv_shared (few : ¬config.numKeyValueHeads ≥ tpSize) :
    ∃ share, 0 < share ∧ tpSize = config.numKeyValueHeads * share := by
  have divides : config.numKeyValueHeads ∣ tpSize := by
    rcases fits.kv with h | h
    · exact absurd (Nat.le_of_dvd fits.kvPositive h) few
    · exact h
  obtain ⟨share, h⟩ := divides
  refine ⟨share, Nat.pos_of_ne_zero ?_, h⟩
  rintro rfl
  have positive := fits.tp
  simp at h
  omega

theorem kvSize_pos : 0 < kvSizeTp config tpSize := by
  by_cases enough : config.numKeyValueHeads ≥ tpSize
  · have even := fits.kv_even enough
    refine Nat.pos_of_ne_zero (fun zero => ?_)
    rw [zero, Nat.mul_zero] at even
    exact Nat.ne_of_gt (Nat.mul_pos fits.headSize_pos fits.kvPositive) even
  · rw [kvSizeTp, if_neg enough]
    exact fits.headSize_pos

theorem kv_window {i : Nat} (hi : i < tpSize) :
    kvStop config tpSize i = kvStart config tpSize i + kvSizeTp config tpSize ∧
    kvStop config tpSize i ≤ config.numKeyValueHeads * config.hiddenSizePerHead := by
  by_cases enough : config.numKeyValueHeads ≥ tpSize
  · have even := fits.kv_even enough
    rw [Nat.mul_comm config.hiddenSizePerHead] at even
    simp only [kvStart, kvStop, if_pos enough]
    refine ⟨Nat.succ_mul _ _, ?_⟩
    rw [even]
    exact Nat.mul_le_mul_right _ hi
  · simp only [kvStart, kvStop, kvSizeTp, if_neg enough]
    refine ⟨Nat.succ_mul _ _, Nat.mul_le_mul_right _ ?_⟩
    have below : i * config.numKeyValueHeads < tpSize * config.numKeyValueHeads :=
      Nat.mul_lt_mul_of_pos_right hi fits.kvPositive
    exact Nat.div_lt_of_lt_mul below

section GateUp

variable {gate up : Weight α} (hgate : Rect config.intermediateSize config.hiddenSize gate)
  (hup : Rect config.intermediateSize config.hiddenSize up)

include hgate hup

theorem rect_gateUpPart {i : Nat} (hi : i < tpSize) :
    Rect (intermediateSizeTp config tpSize * 2) config.hiddenSize
      (gateUpPart config tpSize gate up i) := by
  rw [fits.intermediate_eq] at hgate hup
  rw [Nat.mul_two]
  exact (hgate.block hi).append (hup.block hi)

theorem chunkGateUp_eq (garbage : α) :
    chunkGateUp config tpSize garbage gate up =
      .ok ((List.range tpSize).map (gateUpPart config tpSize gate up)) :=
  fillAndChunk_eq config garbage (fun _ hi => (fits.rect_gateUpPart hgate hup hi).rows) fits.tp
    (Nat.mul_pos fits.intermediateSize_pos (by decide))

theorem mergeGateUp_eq :
    mergeGateUp config tpSize ((List.range tpSize).map (gateUpPart config tpSize gate up)).flatten =
      .ok (gate, up) := by
  have rectGate := hgate
  have rectUp := hup
  rw [fits.intermediate_eq] at rectGate rectUp
  have parts : ∀ i ∈ List.range tpSize, slice (intermediateSizeTp config tpSize * 2 * i)
      (intermediateSizeTp config tpSize * 2 * (i + 1))
      ((List.range tpSize).map (gateUpPart config tpSize gate up)).flatten =
      block (intermediateSizeTp config tpSize) i gate ++
        block (intermediateSizeTp config tpSize) i up := by
    intro i member
    rw [Nat.mul_comm, Nat.mul_comm _ (i + 1)]
    exact slice_flatten (fun _ hi => (fits.rect_gateUpPart hgate hup hi).rows)
      (List.mem_range.mp member)
  have gates : (List.range tpSize).map (fun i => (slice (intermediateSizeTp config tpSize * 2 * i)
      (intermediateSizeTp config tpSize * 2 * (i + 1))
      ((List.range tpSize).map (gateUpPart config tpSize gate up)).flatten).take
        (intermediateSizeTp config tpSize)) =
      blocks (intermediateSizeTp config tpSize) tpSize gate := by
    apply List.map_congr_left
    intro i member
    rw [parts i member, List.take_left' (rectGate.block (List.mem_range.mp member)).rows]
  have ups : (List.range tpSize).map (fun i => (slice (intermediateSizeTp config tpSize * 2 * i)
      (intermediateSizeTp config tpSize * 2 * (i + 1))
      ((List.range tpSize).map (gateUpPart config tpSize gate up)).flatten).drop
        (intermediateSizeTp config tpSize)) =
      blocks (intermediateSizeTp config tpSize) tpSize up := by
    apply List.map_congr_left
    intro i member
    rw [parts i member, List.drop_left' (rectGate.block (List.mem_range.mp member)).rows]
  simp only [mergeGateUp, gates, ups, concat_blocks rectGate fits.tp fits.intermediateSize_pos,
    concat_blocks rectUp fits.tp fits.intermediateSize_pos, ok_bind, pure_eq_ok]

end GateUp

section Qkv

variable {q k v : Weight α} (hq : Rect config.hiddenSize config.hiddenSize q)
  (hk : Rect (config.numKeyValueHeads * config.hiddenSizePerHead) config.hiddenSize k)
  (hv : Rect (config.numKeyValueHeads * config.hiddenSizePerHead) config.hiddenSize v)

theorem rect_kvPart {w : Weight α}
    (rect : Rect (config.numKeyValueHeads * config.hiddenSizePerHead) config.hiddenSize w)
    {i : Nat} (hi : i < tpSize) :
    Rect (kvSizeTp config tpSize) config.hiddenSize
      (slice (kvStart config tpSize i) (kvStop config tpSize i) w) := by
  obtain ⟨stop, inside⟩ := fits.kv_window hi
  have cut := rect.slice (by omega : kvStart config tpSize i ≤ kvStop config tpSize i) inside
  rwa [stop, Nat.add_sub_cancel_left, ← stop] at cut

include hq in
theorem rect_qPart {i : Nat} (hi : i < tpSize) :
    Rect (qSizeTp config tpSize) config.hiddenSize (block (qSizeTp config tpSize) i q) := by
  have rect := hq
  have whole := fits.hidden_eq
  generalize config.hiddenSize = cols at rect whole ⊢
  rw [whole] at rect ⊢
  exact rect.block hi

include hq hk hv

theorem rect_qkvPart {i : Nat} (hi : i < tpSize) :
    Rect (totalSize config tpSize) config.hiddenSize (qkvPart config tpSize q k v i) := by
  have total : totalSize config tpSize = qSizeTp config tpSize + kvSizeTp config tpSize +
      kvSizeTp config tpSize := by
    rw [totalSize, Nat.two_mul, Nat.add_assoc]
  rw [total]
  exact ((fits.rect_qPart hq hi).append (fits.rect_kvPart hk hi)).append (fits.rect_kvPart hv hi)

theorem chunkQkv_eq (garbage : α) :
    chunkQkv config tpSize garbage q k v =
      .ok ((List.range tpSize).map (qkvPart config tpSize q k v)) :=
  fillAndChunk_eq config garbage (fun _ hi => (fits.rect_qkvPart hq hk hv hi).rows) fits.tp
    (Nat.add_pos_left fits.qSize_pos _)

omit hq hk hv in
theorem concat_kept {w : Weight α}
    (rect : Rect (config.numKeyValueHeads * config.hiddenSizePerHead) config.hiddenSize w) :
    concat .rows ((keptRanks config tpSize).map (fun i =>
      slice (kvStart config tpSize i) (kvStop config tpSize i) w)) = .ok w := by
  by_cases enough : config.numKeyValueHeads ≥ tpSize
  · have even := fits.kv_even enough
    have same : (keptRanks config tpSize).map
      (fun i => slice (kvStart config tpSize i) (kvStop config tpSize i) w) =
        blocks (kvSizeTp config tpSize) tpSize w := by
      simp only [keptRanks, if_pos enough, kvStart, kvStop]
      rfl
    have cut : Rect (tpSize * kvSizeTp config tpSize) config.hiddenSize w := by
      rwa [← even, Nat.mul_comm config.hiddenSizePerHead]
    rw [same]
    exact concat_blocks cut fits.tp fits.kvSize_pos
  · obtain ⟨share, positive, htp⟩ := fits.kv_shared enough
    have same : (keptRanks config tpSize).map
      (fun i => slice (kvStart config tpSize i) (kvStop config tpSize i) w) =
        blocks config.hiddenSizePerHead config.numKeyValueHeads w := by
      simp only [keptRanks, if_neg enough, kvStart, kvStop]
      rw [htp, filter_share fits.kvPositive positive, List.map_map]
      apply List.map_congr_left
      intro j _
      have head : j * share * config.numKeyValueHeads / (config.numKeyValueHeads * share) = j := by
        rw [Nat.mul_assoc, Nat.mul_comm share]
        exact Nat.mul_div_cancel j (Nat.mul_pos fits.kvPositive positive)
      simp only [Function.comp_apply, head]
      rfl
    rw [same]
    exact concat_blocks rect fits.kvPositive fits.headSize_pos

theorem mergeQkv_eq :
    mergeQkv config tpSize ((List.range tpSize).map (qkvPart config tpSize q k v)).flatten =
      .ok (q, k, v) := by
  have parts : ∀ i < tpSize, slice (i * totalSize config tpSize) ((i + 1) * totalSize config tpSize)
      ((List.range tpSize).map (qkvPart config tpSize q k v)).flatten =
        qkvPart config tpSize q k v i :=
    fun i hi => slice_flatten (fun _ hj => (fits.rect_qkvPart hq hk hv hj).rows) hi
  have total : totalSize config tpSize = qSizeTp config tpSize + kvSizeTp config tpSize +
      kvSizeTp config tpSize := by
    rw [totalSize, Nat.two_mul, Nat.add_assoc]
  have qs : (List.range tpSize).map (fun i =>
    slice 0 (qSizeTp config tpSize) (slice (i * totalSize config tpSize)
      ((i + 1) * totalSize config tpSize)
        ((List.range tpSize).map (qkvPart config tpSize q k v)).flatten)) =
      blocks (qSizeTp config tpSize) tpSize q := by
    apply List.map_congr_left
    intro i member
    have hi := List.mem_range.mp member
    rw [parts i hi, qkvPart, List.append_assoc]
    exact List.take_left' (fits.rect_qPart hq hi).rows
  have ks : (keptRanks config tpSize).map (fun i => slice (qSizeTp config tpSize)
      (qSizeTp config tpSize + kvSizeTp config tpSize) (slice (i * totalSize config tpSize)
      ((i + 1) * totalSize config tpSize)
        ((List.range tpSize).map (qkvPart config tpSize q k v)).flatten)) =
      (keptRanks config tpSize).map
        (fun i => slice (kvStart config tpSize i) (kvStop config tpSize i) k) := by
    apply List.map_congr_left
    intro i member
    have hi := mem_keptRanks member
    rw [parts i hi, qkvPart, List.append_assoc, slice, ← block,
      List.drop_left' (fits.rect_qPart hq hi).rows, Nat.add_sub_cancel_left,
      List.take_left' (fits.rect_kvPart hk hi).rows]
  have vs : (keptRanks config tpSize).map (fun i =>
    slice (qSizeTp config tpSize + kvSizeTp config tpSize)
      (totalSize config tpSize) (slice (i * totalSize config tpSize)
      ((i + 1) * totalSize config tpSize)
        ((List.range tpSize).map (qkvPart config tpSize q k v)).flatten)) =
      (keptRanks config tpSize).map
        (fun i => slice (kvStart config tpSize i) (kvStop config tpSize i) v) := by
    apply List.map_congr_left
    intro i member
    have hi := mem_keptRanks member
    have front := (fits.rect_qPart hq hi).append (fits.rect_kvPart hk hi)
    rw [parts i hi, qkvPart, slice, ← block, List.drop_left' front.rows, total,
      Nat.add_sub_cancel_left]
    exact List.take_of_length_le (Nat.le_of_eq (fits.rect_kvPart hv hi).rows)
  have rectQ : Rect (tpSize * qSizeTp config tpSize) config.hiddenSize q := fits.hidden_eq ▸ hq
  simp only [mergeQkv, qs, ks, vs, concat_blocks rectQ fits.tp fits.qSize_pos, fits.concat_kept hk,
    fits.concat_kept hv, ok_bind, pure_eq_ok]

end Qkv

end Config.Fits

end Verl.Llama
