import Verl.Dataset.RopeBlocks

/-! The positions of a prompt with images: `get_rope_index` places its blocks one after another. -/
namespace Verl.Dataset

namespace RopeTokens

def Distinct (tokens : RopeTokens) : Prop :=
  tokens.imageTokenId ≠ tokens.videoTokenId ∧ tokens.imageTokenId ≠ tokens.visionStartTokenId

def Plain (tokens : RopeTokens) (ids : List Int) : Prop :=
  tokens.imageTokenId ∉ ids ∧ tokens.visionStartTokenId ∉ ids

end RopeTokens

/-- Each vision start is followed by the image tokens of its row of the grid, and no image token
stands elsewhere. Rows may be left over. -/
inductive Expanded (tokens : RopeTokens) : List GridThw → List Int → Prop
  | tail {grids : List GridThw} {ids : List Int} (plain : tokens.Plain ids) :
  Expanded tokens grids ids
  | image {grid : GridThw} {grids : List GridThw} {ids rest : List Int} (plain : tokens.Plain ids)
    (later : Expanded tokens grids rest) :
      Expanded tokens (grid :: grids)
        (ids ++ tokens.visionStartTokenId ::
          (List.replicate (tokens.gridSize grid) tokens.imageTokenId ++ rest))

structure Divides (tokens : RopeTokens) (grids : List GridThw) (ids : List Int)
    (blocks : List Block) : Prop where
  covers : blocks.flatMap (Block.ids tokens) = ids
  wellFormed : ∀ b ∈ blocks, b.WellFormed tokens
  rows : blocks.filterMap Block.grid <+: grids
  first : ∀ b, blocks.head? = some b → b.grid = none

variable {tokens : RopeTokens}

section Search

theorem visionTokens_cons (id : Int) (rest : List Int) :
    visionTokens tokens (id :: rest) = (if id = tokens.visionStartTokenId then do
      let next ← pyGet rest 0
      let later ← visionTokens tokens rest
      return next :: later
    else visionTokens tokens rest) := by
  have shifted : ((List.range rest.length).filter (fun i =>
    rest[i]? = some tokens.visionStartTokenId)).mapM
      (fun i => pyGet (id :: rest) (i + 1 + 1)) = visionTokens tokens rest :=
        mapM_congr (fun i _ => rfl)
  rw [visionTokens, List.length_cons, List.range_succ_eq_map, List.filter_cons, List.filter_map]
  by_cases start : id = tokens.visionStartTokenId
  · rw [if_pos (by simpa using start), if_pos start, List.mapM_cons, List.mapM_map]
    exact congrArg (fun later => pyGet rest 0 >>= fun next => later >>= fun later =>
      pure (next :: later)) shifted
  · rw [if_neg (by simpa using start), if_neg start, List.mapM_map]
    exact shifted

theorem visionTokens_append {ids : List Int} (absent : tokens.visionStartTokenId ∉ ids)
    (rest : List Int) :
    visionTokens tokens (ids ++ rest) = visionTokens tokens rest := by
  induction ids with
  | nil => rfl
  | cons id ids ih =>
    obtain ⟨other, absent⟩ := List.ne_and_not_mem_of_not_mem_cons absent
    rw [List.cons_append, visionTokens_cons, if_neg other.symm, ih absent]

theorem visionStart_notMem_image (distinct : tokens.Distinct) (n : Nat) :
    tokens.visionStartTokenId ∉ List.replicate n tokens.imageTokenId :=
  fun member => distinct.2 (List.eq_of_mem_replicate member).symm

theorem count_image (distinct : tokens.Distinct) {ids : List Int} (plain : tokens.Plain ids)
    (n : Nat) (rest : List Int) :
    (ids ++ tokens.visionStartTokenId :: (List.replicate n tokens.imageTokenId ++ rest)).count
      tokens.visionStartTokenId = rest.count tokens.visionStartTokenId + 1 := by
  rw [List.count_append, List.count_cons_self, List.count_append,
    List.count_eq_zero_of_not_mem plain.2,
    List.count_eq_zero_of_not_mem (visionStart_notMem_image distinct n), Nat.zero_add, Nat.zero_add]

/-- As many images are found as there are vision starts, and no videos. -/
theorem visionTokens_expanded (distinct : tokens.Distinct) {grids : List GridThw} {ids : List Int}
    (valid : Expanded tokens grids ids) (filled : ∀ grid ∈ grids, 0 < tokens.gridSize grid) :
    visionTokens tokens ids =
      .ok (List.replicate (ids.count tokens.visionStartTokenId) tokens.imageTokenId) := by
  induction valid with
  | @tail grids ids plain =>
    have none := visionTokens_append plain.2 []
    rw [List.append_nil] at none
    rw [none, List.count_eq_zero_of_not_mem plain.2]
    rfl
  | @image grid grids ids rest plain later ih =>
    have first : pyGet (List.replicate (tokens.gridSize grid) tokens.imageTokenId ++ rest) 0 =
        .ok tokens.imageTokenId := by
      obtain ⟨n, size⟩ :=
        Nat.exists_eq_succ_of_ne_zero (Nat.ne_of_gt (filled grid List.mem_cons_self))
      rw [size]
      rfl
    rw [visionTokens_append plain.2, visionTokens_cons, if_pos rfl, first,
      visionTokens_append (visionStart_notMem_image distinct _),
      ih (fun row later => filled row (List.mem_cons_of_mem grid later)),
      count_image distinct plain]
    rfl

theorem indexFrom_drop {inputTokens before after : List Int} {token : Int} {st : Nat}
    (rest : inputTokens.drop st = before ++ token :: after) (absent : token ∉ before) :
    indexFrom inputTokens token st = .ok (st + before.length) := by
  have none : before.findIdx? (· = token) = none :=
    List.findIdx?_eq_none_iff.mpr (fun id member =>
      decide_eq_false (fun same => absent (same ▸ member)))
  rw [indexFrom, rest, List.findIdx?_append, none]
  simp [List.findIdx?_cons]

theorem nextToken_drop {inputTokens before after : List Int} {token : Int} {remain st : Nat}
    (some : 0 < remain)
    (rest : inputTokens.drop st = before ++ token :: after) (absent : token ∉ before) :
    nextToken inputTokens token remain st = .ok (st + before.length) := by
  have member : token ∈ inputTokens.drop st := by
    rw [rest]
    exact List.mem_append_right before List.mem_cons_self
  have present : inputTokens.contains token = true :=
    List.contains_iff_mem.mpr (List.mem_of_mem_drop member)
  rw [nextToken, if_pos ⟨present, some⟩, indexFrom_drop rest absent]

theorem nextToken_zero (inputTokens : List Int) (token : Int) (st : Nat) :
    nextToken inputTokens token 0 st = .ok (inputTokens.length + 1) := by
  rw [nextToken, if_neg (fun both => Nat.lt_irrefl 0 both.2)]

end Search

section Starts

variable {blocks : List Block} {llmPosIdsList : List (List (List Nat))} {start : Nat}

theorem mem_flatten_channelsOf {triples : List Triple} {n : Nat} :
    n ∈ (channelsOf triples).flatten ↔ n ∈ coordinates triples := by
  rw [mem_coordinates]
  simp only [channelsOf, List.flatten_cons, List.flatten_nil, List.append_nil,
    List.mem_append, List.mem_map]
  constructor
  · rintro (⟨t, member, rfl⟩ | ⟨t, member, rfl⟩ | ⟨t, member, rfl⟩)
    · exact ⟨t, member, .inl rfl⟩
    · exact ⟨t, member, .inr (.inl rfl)⟩
    · exact ⟨t, member, .inr (.inr rfl)⟩
  · rintro ⟨t, member, (rfl | rfl | rfl)⟩
    · exact .inl ⟨t, member, rfl⟩
    · exact .inr (.inl ⟨t, member, rfl⟩)
    · exact .inr (.inr ⟨t, member, rfl⟩)

theorem nextStart_block {b : Block} (good : b.WellFormed tokens) (before : List (List (List Nat)))
    (start : Nat) :
    nextStart (before ++ [channelsOf (b.triples tokens start)]) = .ok (b.next tokens start) := by
  obtain ⟨largest, bound⟩ := good.greatest start
  have max : (channelsOf (b.triples tokens start)).flatten.max? = some (b.next tokens start - 1) :=
    List.max?_eq_some_iff.mpr ⟨mem_flatten_channelsOf.mpr largest, fun n member =>
      bound (mem_flatten_channelsOf.mp member)⟩
  simp only [nextStart, List.getLast?_concat, max]
  rw [Nat.sub_add_cancel (Nat.lt_of_le_of_lt (Nat.zero_le start) (good.lt_next start))]

def channelBlocks (tokens : RopeTokens) (start : Nat) (blocks : List Block) :
    List (List (List Nat)) :=
  (layFrom (Block.place tokens) (Block.next tokens) start blocks).map (fun placed =>
    channelsOf placed.triples)

theorem nextStart_blocks (good : ∀ b ∈ blocks, b.WellFormed tokens)
    (next : nextStart llmPosIdsList = .ok start) :
    nextStart (llmPosIdsList ++ channelBlocks tokens start blocks) =
      .ok (endFrom (Block.next tokens) start blocks) := by
  induction blocks generalizing llmPosIdsList start with
  | nil =>
    rw [channelBlocks, layFrom, List.map_nil, List.append_nil]
    exact next
  | cons b blocks ih =>
    have later := ih (fun c there => good c (List.mem_cons_of_mem b there))
      (nextStart_block (good b List.mem_cons_self) llmPosIdsList start)
    rw [List.append_assoc] at later
    exact later

theorem channelBlocks_append (more : List Block) : channelBlocks tokens start (blocks ++ more) =
    channelBlocks tokens start blocks ++
      channelBlocks tokens (endFrom (Block.next tokens) start blocks) more := by
  rw [channelBlocks, layFrom_append, List.map_append]
  rfl

end Starts

section Divides

variable {grids : List GridThw} {ids taken : List Int} {blocks : List Block}

theorem wellFormed_text (distinct : tokens.Distinct) (plain : tokens.Plain ids) :
    (Block.text (ids ++ [tokens.visionStartTokenId])).WellFormed tokens :=
  ⟨by simp, by simpa [plain.1] using distinct.2⟩

theorem Divides.cons_image (divides : Divides tokens grids taken blocks)
    (distinct : tokens.Distinct) (plain : tokens.Plain ids)
    {grid : GridThw} (filled : 0 < tokens.gridSize grid) :
    Divides tokens (grid :: grids)
      ((ids ++ [tokens.visionStartTokenId]) ++
        List.replicate (tokens.gridSize grid) tokens.imageTokenId ++ taken)
      (.text (ids ++ [tokens.visionStartTokenId]) :: .image grid :: blocks) where
  covers := by
    rw [List.flatMap_cons, List.flatMap_cons, divides.covers, ← List.append_assoc]
    rfl
  wellFormed := by
    intro b member
    rcases List.mem_cons.mp member with rfl | member
    · exact wellFormed_text distinct plain
    · rcases List.mem_cons.mp member with rfl | later
      · exact filled
      · exact divides.wellFormed b later
  rows := List.cons_prefix_cons.mpr ⟨rfl, divides.rows⟩
  first := by
    rintro b ⟨⟩
    rfl

theorem Divides.append_tail (divides : Divides tokens grids ids blocks) {tail : List Int}
    (plain : tokens.Plain tail) (some : tail ≠ []) :
    Divides tokens grids (ids ++ tail) (blocks ++ [.text tail]) where
  covers := by
    rw [List.flatMap_append, divides.covers]
    exact congrArg (ids ++ ·) (List.append_nil tail)
  wellFormed := by
    intro b member
    rcases List.mem_append.mp member with member | member
    · exact divides.wellFormed b member
    · obtain rfl := List.mem_singleton.mp member
      exact ⟨some, plain.1⟩
  rows := by
    rw [List.filterMap_append]
    exact (List.append_nil _).symm ▸ divides.rows
  first := by
    intro b found
    cases blocks with
    | nil =>
      cases found
      rfl
    | cons c blocks => exact divides.first b found

end Divides

section Loop

variable {inputTokens : List Int} {imageGridThw : List GridThw} {s : RopeState} {start : Nat}

theorem ropeStep_image {grid : GridThw} {ids rest : List Int} (distinct : tokens.Distinct)
    (plain : tokens.Plain ids)
    (filled : 0 < tokens.gridSize grid) (remain : 0 < s.remainImages) (videos : s.remainVideos = 0)
    (left : inputTokens.drop s.st =
      ids ++ tokens.visionStartTokenId ::
        (List.replicate (tokens.gridSize grid) tokens.imageTokenId ++ rest))
    (row : imageGridThw[s.imageIndex]? = some grid) (next : nextStart s.llmPosIdsList = .ok start) :
    ropeStep tokens inputTokens imageGridThw s = .ok {
      llmPosIdsList := s.llmPosIdsList ++
        channelBlocks tokens start [.text (ids ++ [tokens.visionStartTokenId]), .image grid]
      st := s.st + ((ids ++ [tokens.visionStartTokenId]).length + tokens.gridSize grid)
      imageIndex := s.imageIndex + 1
      remainImages := s.remainImages - 1
      remainVideos := s.remainVideos } := by
  obtain ⟨n, size⟩ := Nat.exists_eq_succ_of_ne_zero (Nat.ne_of_gt filled)
  have here : inputTokens.drop s.st = (ids ++ [tokens.visionStartTokenId]) ++
      tokens.imageTokenId :: (List.replicate n tokens.imageTokenId ++ rest) := by
    rw [left, size, List.replicate_succ, List.append_assoc, List.singleton_append, List.cons_append]
  have absent : tokens.imageTokenId ∉ ids ++ [tokens.visionStartTokenId] := by
    simpa [plain.1] using distinct.2
  have image := nextToken_drop remain here absent
  have video : nextToken inputTokens tokens.videoTokenId s.remainVideos s.st =
      .ok (inputTokens.length + 1) := by
    rw [videos, nextToken_zero]
  have before : s.st + (ids ++ [tokens.visionStartTokenId]).length < inputTokens.length + 1 := by
    have length := congrArg List.length here
    rw [List.length_drop, List.length_append, List.length_cons] at length
    omega
  have blocks : [textBlock (ids ++ [tokens.visionStartTokenId]).length start,
      gridBlock grid.t (grid.h / tokens.mergeSize) (grid.w / tokens.mergeSize)
        ((ids ++ [tokens.visionStartTokenId]).length + start)] =
      channelBlocks tokens start [.text (ids ++ [tokens.visionStartTokenId]), .image grid] := by
    rw [textBlock_eq tokens, Nat.add_comm, gridBlock_eq]
    rfl
  have size : s.st + (ids ++ [tokens.visionStartTokenId]).length +
      grid.t * (grid.h / tokens.mergeSize) * (grid.w / tokens.mergeSize) =
      s.st + ((ids ++ [tokens.visionStartTokenId]).length + tokens.gridSize grid) := by
    rw [RopeTokens.gridSize, RopeTokens.frameSize, Nat.mul_assoc, Nat.add_assoc]
  simp only [ropeStep, image, video, ok_bind, if_pos before, pyGet_ok_iff.mpr row,
    pyFloorDiv_pos (mergeSize_pos filled), next, pure_eq_ok, Nat.add_sub_cancel_left, blocks, size]

theorem ropeLoop_expanded (distinct : tokens.Distinct) {grids : List GridThw} {ids : List Int}
    (valid : Expanded tokens grids ids) (filled : ∀ grid ∈ grids, 0 < tokens.gridSize grid)
    (s : RopeState) (left : inputTokens.drop s.st = ids)
    (rows : imageGridThw.drop s.imageIndex = grids)
    (remain : s.remainImages = ids.count tokens.visionStartTokenId) (videos : s.remainVideos = 0)
    (next : nextStart s.llmPosIdsList = .ok start) (steps : List Nat)
    (count : steps.length = ids.count tokens.visionStartTokenId) :
    ∃ blocks last taken,
      steps.foldlM (fun s _ => ropeStep tokens inputTokens imageGridThw s) s = .ok last ∧
      last.llmPosIdsList = s.llmPosIdsList ++ channelBlocks tokens start blocks ∧
      ids = taken ++ inputTokens.drop last.st ∧ tokens.Plain (inputTokens.drop last.st) ∧
      Divides tokens grids taken blocks := by
  induction valid generalizing s start steps with
  | @tail grids ids plain =>
    rw [List.count_eq_zero_of_not_mem plain.2] at count
    obtain rfl := List.eq_nil_of_length_eq_zero count
    refine ⟨[], s, [], rfl, (List.append_nil _).symm, left.symm, left.symm ▸ plain, rfl, ?_,
      List.nil_prefix, ?_⟩
    · intro b member
      cases member
    · intro b found
      cases found
  | @image grid grids ids rest plain later ih =>
    rw [count_image distinct plain] at remain count
    obtain ⟨step, steps, rfl⟩ := List.exists_cons_of_length_eq_add_one count
    have row : imageGridThw[s.imageIndex]? = some grid := by
      rw [← List.head?_drop, rows, List.head?_cons]
    obtain ⟨s', stepped, list', st', index', remain', videos'⟩ :
      ∃ s', ropeStep tokens inputTokens imageGridThw s = .ok s' ∧
        s'.llmPosIdsList = s.llmPosIdsList ++
          channelBlocks tokens start [.text (ids ++ [tokens.visionStartTokenId]), .image grid] ∧
        s'.st = s.st + ((ids ++ [tokens.visionStartTokenId]).length + tokens.gridSize grid) ∧
        s'.imageIndex = s.imageIndex + 1 ∧ s'.remainImages = s.remainImages - 1 ∧
          s'.remainVideos = s.remainVideos :=
      ⟨_, ropeStep_image distinct plain (filled grid List.mem_cons_self) (remain ▸ Nat.succ_pos _)
        videos left row next, rfl, rfl, rfl, rfl, rfl⟩
    have shape : ids ++
      tokens.visionStartTokenId ::
      (List.replicate (tokens.gridSize grid) tokens.imageTokenId ++ rest) =
        (ids ++ [tokens.visionStartTokenId] ++
          List.replicate (tokens.gridSize grid) tokens.imageTokenId) ++ rest := by simp
    have left' : inputTokens.drop s'.st = rest := by
      rw [st', ← List.drop_drop, left, shape]
      exact List.drop_left' (by rw [List.length_append, List.length_replicate])
    have rows' : imageGridThw.drop s'.imageIndex = grids := by
      rw [index', ← List.drop_drop, rows, List.drop_one, List.tail_cons]
    have next' : nextStart s'.llmPosIdsList = .ok (endFrom (Block.next tokens) start
        [.text (ids ++ [tokens.visionStartTokenId]), .image grid]) := by
      rw [list']
      refine nextStart_blocks (fun b member => ?_) next
      rcases List.mem_cons.mp member with rfl | member
      · exact wellFormed_text distinct plain
      · obtain rfl := List.mem_singleton.mp member
        exact filled grid List.mem_cons_self
    obtain ⟨blocks, last, taken, run, list, split, tail, divides⟩ := ih
      (fun g member => filled g (List.mem_cons_of_mem grid member)) s' left' rows'
        (by rw [remain', remain, Nat.add_sub_cancel])
      (videos'.trans videos) next' steps (Nat.succ.inj count)
    refine ⟨.text (ids ++ [tokens.visionStartTokenId]) :: .image grid :: blocks, last,
      (ids ++ [tokens.visionStartTokenId]) ++
      List.replicate (tokens.gridSize grid) tokens.imageTokenId ++ taken, ?_, ?_, ?_, tail,
      divides.cons_image distinct plain (filled grid List.mem_cons_self)⟩
    · rw [List.foldlM_cons, stepped]
      exact run
    · rw [list, list', List.append_assoc, ← channelBlocks_append]
      rfl
    · rw [shape, List.append_assoc _ taken, ← split]

end Loop

section Positions

variable {grids : List GridThw} {ids : List Int} {blocks : List Block}

def placements (tokens : RopeTokens) (blocks : List Block) : List Placed :=
  layFrom (Block.place tokens) (Block.next tokens) 0 blocks

theorem catChannels_map {placed : List Placed} (some : placed ≠ []) :
    catChannels (placed.map (fun p => channelsOf p.triples)) =
      .ok (channelsOf (placed.flatMap Placed.triples)) := by
  rw [catChannels, if_neg (List.map_eq_nil_iff.not.mpr some)]
  simp [channelsOf, List.range_succ, List.flatMap_map, List.map_flatMap]

theorem catChannels_blocks (some : blocks ≠ []) :
    catChannels (channelBlocks tokens 0 blocks) =
      .ok (channelsOf ((placements tokens blocks).flatMap Placed.triples)) := by
  obtain ⟨b, later, rfl⟩ := List.exists_cons_of_ne_nil some
  exact catChannels_map (List.cons_ne_nil _ _)

/-- The positions of a valid prompt are those of its blocks, each placed where the one before it
ends. -/
theorem llmPositions_expanded (distinct : tokens.Distinct) (valid : Expanded tokens grids ids)
    (filled : ∀ grid ∈ grids, 0 < tokens.gridSize grid) (some : ids ≠ []) :
    ∃ blocks, Divides tokens grids ids blocks ∧
      llmPositions tokens ids grids =
        .ok (channelsOf ((placements tokens blocks).flatMap Placed.triples)) := by
  have images : (List.replicate (ids.count tokens.visionStartTokenId) tokens.imageTokenId).count
    tokens.imageTokenId =
      ids.count tokens.visionStartTokenId := List.count_replicate_self
  have videos : (List.replicate (ids.count tokens.visionStartTokenId) tokens.imageTokenId).count
    tokens.videoTokenId = 0 :=
    List.count_eq_zero_of_not_mem (fun member => distinct.1 (List.eq_of_mem_replicate member).symm)
  obtain ⟨blocks, last, taken, run, list, split, plain, divides⟩ :=
    ropeLoop_expanded distinct valid filled
    ⟨[], 0, 0, ids.count tokens.visionStartTokenId,
      0⟩ (List.drop_zero : ids.drop 0 = ids) (List.drop_zero : grids.drop 0 = grids)
    rfl rfl (rfl : nextStart [] = .ok 0) (List.range (ids.count tokens.visionStartTokenId))
      List.length_range
  rw [List.nil_append] at list
  have next : nextStart last.llmPosIdsList = .ok (endFrom (Block.next tokens) 0 blocks) := by
    rw [list]
    exact nextStart_blocks divides.wellFormed (rfl : nextStart [] = .ok 0)
  have steps : llmPositions tokens ids grids = (if last.st < ids.length then do
      let stIdx ← nextStart last.llmPosIdsList
      catChannels (last.llmPosIdsList ++ [textBlock (ids.length - last.st) stIdx])
    else catChannels last.llmPosIdsList) := by
    simp only [llmPositions, visionTokens_expanded distinct valid filled, ok_bind, images, videos,
      Nat.add_zero, run]
  rw [steps]
  by_cases more : last.st < ids.length
  · have tail : ids.drop last.st ≠ [] := by
      refine List.ne_nil_of_length_pos ?_
      rw [List.length_drop]
      exact Nat.sub_pos_of_lt more
    have covered := divides.append_tail plain tail
    rw [← split] at covered
    refine ⟨blocks ++ [.text (ids.drop last.st)], covered, ?_⟩
    rw [if_pos more, next, ok_bind, list, ← List.length_drop, textBlock_eq tokens]
    rw [← catChannels_blocks (List.concat_ne_nil _ _), channelBlocks_append]
    rfl
  · have none : ids.drop last.st = [] := List.drop_eq_nil_of_le (Nat.le_of_not_lt more)
    rw [none, List.append_nil] at split
    rw [← split] at divides
    have filled : blocks ≠ [] := by
      rintro rfl
      exact some divides.covers.symm
    exact ⟨blocks, divides, by rw [if_neg more, list, catChannels_blocks filled]⟩

end Positions

/-- What the positions of a prompt with images are to be: its valid tokens fall into blocks of text
and images, and each of them has one triple. -/
structure PlacesTokens (tokens : RopeTokens) (grids : List GridThw) (inputIds : List Int)
    (mask : List Bool) (rope : List (List Int)) (blocks : List Placed) : Prop where
  shape : rope.length = 3 ∧ ∀ channel ∈ rope, channel.length = inputIds.length
  covers : blocks.flatMap Placed.ids = keep mask inputIds
  sized : ∀ b ∈ blocks, b.ids ≠ [] ∧ b.triples.length = b.ids.length
  assigned : rope.map (keep mask) =
    (channelsOf (blocks.flatMap Placed.triples)).map (List.map Int.ofNat)
  rows : blocks.filterMap Placed.grid <+: grids
  text : ∀ b ∈ blocks, b.grid = none → tokens.imageTokenId ∉ b.ids ∧
    ∃ start, b.triples = (List.range b.ids.length).map (fun i => Triple.diagonal (start + i))
  image : ∀ b ∈ blocks, ∀ grid, b.grid = some grid →
    b.ids = List.replicate (tokens.gridSize grid) tokens.imageTokenId ∧
    ∀ i j, i < tokens.gridSize grid → j < tokens.gridSize grid →
      (b.triples[i]? = b.triples[j]? ↔ i % tokens.frameSize grid = j % tokens.frameSize grid)
  first : ∀ b, blocks.head? = some b → b.triples.head? = some (.diagonal 0)
  chained : blocks.IsChain (fun before after => ∃ largest,
    IsGreatest (coordinates before.triples) largest ∧
    after.triples.head? = some (.diagonal (largest + 1)))
  zero : ∀ channel, rope[0]? = some channel → ∀ j : Nat, channel[j]? = some 0 ↔
    mask[j]? = some true ∧ rank mask j = 0

section Places

variable {grids : List GridThw} {ids inputIds : List Int} {mask : List Bool} {blocks : List Block}

theorem exists_of_mem_placements {p : Placed} (member : p ∈ placements tokens blocks) :
    ∃ b ∈ blocks, ∃ start, p = b.place tokens start := by
  obtain ⟨b, there, start, -, same⟩ :=
    exists_of_mem_layFrom (P := fun _ => True) (fun _ _ _ _ => trivial) trivial member
  exact ⟨b, there, start, same⟩

theorem isChain_placements (good : ∀ b ∈ blocks, b.WellFormed tokens) :
    (placements tokens blocks).IsChain (fun before after => ∃ largest,
      IsGreatest (coordinates before.triples) largest ∧
      after.triples.head? = some (.diagonal (largest + 1))) := by
  refine isChain_layFrom (fun b there start c there' => ⟨_, (good b there).greatest start, ?_⟩)
  rw [Nat.sub_add_cancel (Nat.lt_of_le_of_lt (Nat.zero_le start) ((good b there).lt_next start))]
  exact (good c there').head_triples _

theorem le_temporal (b : Block) {start : Nat} {t : Triple} (member : t ∈ b.triples tokens start) :
    start ≤ t.temporal := by
  cases b with
  | text ids =>
    obtain ⟨i, -, rfl⟩ := List.mem_map.mp member
    exact Nat.le_add_right start i
  | image grid =>
    obtain ⟨i, -, rfl⟩ := List.mem_map.mp member
    exact Nat.le_refl start

theorem temporal_eq_zero_iff (divides : Divides tokens grids ids blocks)
    (some : blocks ≠ []) (r : Nat) :
    (((placements tokens blocks).flatMap Placed.triples).map Triple.temporal)[r]? = .some 0 ↔
      r = 0 := by
  obtain ⟨b, later, rfl⟩ := List.exists_cons_of_ne_nil some
  have good := divides.wellFormed b List.mem_cons_self
  cases b with
  | image grid => cases divides.first _ rfl
  | text text =>
    have room : 0 < text.length := List.length_pos_iff.mpr good.1
    have times : ((placements tokens (.text text :: later)).flatMap Placed.triples).map
      Triple.temporal =
        List.range text.length ++
          ((layFrom (Block.place tokens) (Block.next tokens) (0 + text.length) later).flatMap
          Placed.triples).map Triple.temporal := by
      rw [placements, layFrom, List.flatMap_cons, List.map_append]
      refine congrArg (· ++ _) ?_
      simp [Block.place, Block.triples, Triple.diagonal, Function.comp_def]
    rw [times]
    by_cases inside : r < text.length
    · rw [List.getElem?_append_left (by simpa using inside), List.getElem?_range inside,
        Option.some.injEq]
    · rw [List.getElem?_append_right (by simpa using inside)]
      constructor
      · intro found
        obtain ⟨t, member, zero⟩ := List.mem_map.mp (List.mem_of_getElem? found)
        obtain ⟨p, there, member⟩ := List.mem_flatMap.mp member
        obtain ⟨c, -, start, above, rfl⟩ :=
          exists_of_mem_layFrom (P := (text.length ≤ ·)) (fun c member start above =>
          Nat.le_trans above
            (Nat.le_of_lt ((divides.wellFormed c (List.mem_cons_of_mem _ member)).lt_next start)))
          (Nat.zero_add _).ge there
        have time := le_temporal c member
        omega
      · intro zero
        omega

theorem covers_placements (divides : Divides tokens grids ids blocks) :
    (placements tokens blocks).flatMap Placed.ids = ids := by
  rw [← divides.covers]
  exact flatMap_layFrom (fun _ _ => rfl)

theorem grids_placements :
    (placements tokens blocks).filterMap Placed.grid = blocks.filterMap Block.grid :=
  filterMap_layFrom (fun _ _ => rfl)

theorem length_placements (divides : Divides tokens grids (keep mask inputIds) blocks)
    (same : mask.length = inputIds.length) :
    ((placements tokens blocks).flatMap Placed.triples).length = (nonzero mask).length := by
  have each : ∀ p ∈ placements tokens blocks, p.triples.length = p.ids.length := by
    intro p member
    obtain ⟨b, -, start, rfl⟩ := exists_of_mem_placements member
    exact length_triples b start
  calc ((placements tokens blocks).flatMap Placed.triples).length
      = ((placements tokens blocks).flatMap Placed.ids).length := by
        rw [List.length_flatMap, List.length_flatMap, List.map_congr_left each]
    _ = mask.count true := by rw [covers_placements divides, length_keep same]
    _ = (nonzero mask).length := (length_keep List.length_range.symm).symm

theorem length_of_mem_channelsOf {triples : List Triple} {values : List Nat}
    (member : values ∈ channelsOf triples) :
    values.length = triples.length := by
  simp only [channelsOf, List.mem_cons, List.not_mem_nil, or_false] at member
  rcases member with rfl | rfl | rfl <;> exact List.length_map _

def channelRow (inputIds : List Int) (mask : List Bool) (values : List Nat) : List Int :=
  put (nonzero mask) (values.map Int.ofNat) (List.replicate inputIds.length 1)

theorem keep_channelRow (same : mask.length = inputIds.length) {values : List Nat}
    (count : values.length = (nonzero mask).length) :
    keep mask (channelRow inputIds mask values) = values.map Int.ofNat :=
  keep_put ((List.length_map _).trans count) (same.trans List.length_replicate.symm)

theorem getElem?_channelRow (same : mask.length = inputIds.length) {values : List Nat}
    (count : values.length = (nonzero mask).length)
    (j : Nat) : (channelRow inputIds mask values)[j]? = some 0 ↔
      mask[j]? = some true ∧ values[rank mask j]? = some 0 := by
  by_cases kept : mask[j]? = some true
  · rw [← getElem?_keep kept, keep_channelRow same count, List.getElem?_map]
    simp [kept]
  · have untouched :
      (channelRow inputIds mask values)[j]? = (List.replicate inputIds.length (1 : Int))[j]? :=
      getElem?_put_of_notMem (fun member => kept (mem_nonzero member)) _ _
    rw [untouched, List.getElem?_replicate]
    constructor
    · intro found
      split at found <;> cases found
    · intro both
      exact absurd both.1 kept

theorem Divides.places (divides : Divides tokens grids (keep mask inputIds) blocks)
    (some : blocks ≠ [])
    (same : mask.length = inputIds.length) : PlacesTokens tokens grids inputIds mask
      ((channelsOf ((placements tokens blocks).flatMap Placed.triples)).map
        (channelRow inputIds mask)) (placements tokens blocks) where
  shape := by
    refine ⟨rfl, fun channel member => ?_⟩
    obtain ⟨values, -, rfl⟩ := List.mem_map.mp member
    rw [channelRow, length_put, List.length_replicate]
  covers := covers_placements divides
  sized := by
    intro p member
    obtain ⟨b, there, start, rfl⟩ := exists_of_mem_placements member
    exact ⟨(divides.wellFormed b there).ids_ne_nil, length_triples b start⟩
  assigned := by
    rw [List.map_map]
    refine List.map_congr_left (fun values member => ?_)
    exact keep_channelRow same
      ((length_of_mem_channelsOf member).trans (length_placements divides same))
  rows := grids_placements.symm ▸ divides.rows
  text := by
    intro p member none
    obtain ⟨b, there, start, rfl⟩ := exists_of_mem_placements member
    cases b with
    | text ids => exact ⟨(divides.wellFormed _ there).2, start, rfl⟩
    | image grid => cases none
  image := by
    intro p member grid found
    obtain ⟨b, -, start, rfl⟩ := exists_of_mem_placements member
    cases b with
    | text ids => cases found
    | image grid =>
      cases found
      exact ⟨rfl, fun i j => Block.image_triples_eq_iff⟩
  first := by
    intro p found
    obtain ⟨b, later, rfl⟩ := List.exists_cons_of_ne_nil some
    cases found
    exact (divides.wellFormed b List.mem_cons_self).head_triples 0
  chained := isChain_placements divides.wellFormed
  zero := by
    intro channel found j
    cases found
    rw [getElem?_channelRow same ((List.length_map _).trans (length_placements divides same)),
      temporal_eq_zero_iff divides some]

end Places

/-- For every prompt whose vision starts are followed by the image tokens of their grids, each with
at least one, the positions are found and place its blocks. Two tokens of one image share their
triple exactly when they stand at one place of two frames. -/
theorem getRopeIndex_places (distinct : tokens.Distinct) {grids : List GridThw}
    {inputIds : List Int} {attentionMask : List Nat} (same : attentionMask.length = inputIds.length)
    (valid : Expanded tokens grids (keep (attentionMask.map (· == 1)) inputIds))
    (filled : ∀ grid ∈ grids, 0 < tokens.gridSize grid)
    (nonempty : keep (attentionMask.map (· == 1)) inputIds ≠ []) :
    ∃ rope blocks, getRopeIndex tokens inputIds (some grids) attentionMask = .ok rope ∧
      PlacesTokens tokens grids inputIds (attentionMask.map (· == 1)) rope blocks := by
  obtain ⟨blocks, divides, positions⟩ := llmPositions_expanded distinct valid filled nonempty
  have some : blocks ≠ [] := by
    rintro rfl
    exact nonempty divides.covers.symm
  have masked : (attentionMask.map (· == 1)).length = inputIds.length :=
    (List.length_map _).trans same
  refine ⟨_, _, ?_, divides.places some masked⟩
  simp only [getRopeIndex, positions, ok_bind]
  refine mapM_ok _ _ _ (fun values member => ?_)
  rw [assignMasked, if_pos
    ((length_of_mem_channelsOf member).trans (length_placements divides masked))]
  rfl

section Samples

def sampleRopeTokens : RopeTokens := ⟨2, 2, 4, 1⟩

theorem distinct_sampleRopeTokens : sampleRopeTokens.Distinct := ⟨by decide, by decide⟩

/-- Padding, a word, an image of two by two merged patches and a word. -/
theorem getRopeIndex_places_sample : ∃ rope blocks,
    getRopeIndex sampleRopeTokens [0, 7, 1, 2, 2, 2, 2, 3] (some [⟨1, 4, 4⟩]) [0, 1, 1, 1, 1, 1, 1,
      1] = .ok rope ∧
      PlacesTokens sampleRopeTokens [⟨1, 4, 4⟩] [0, 7, 1, 2, 2, 2, 2, 3] [false, true, true, true,
        true, true, true, true] rope blocks :=
  getRopeIndex_places distinct_sampleRopeTokens rfl
    (@Expanded.image sampleRopeTokens ⟨1, 4,
      4⟩ [] [7] [3] ⟨by decide, by decide⟩ (.tail ⟨by decide, by decide⟩))
    (by decide) (by decide)

/-- The two tokens of an image with two frames get one triple, and behind an image without tokens no
position is found. -/
theorem frames_share_and_empty_fails :
    (Expanded sampleRopeTokens [⟨2, 2, 2⟩] [7, 1, 2, 2, 3] ∧
      getRopeIndex sampleRopeTokens [7, 1, 2, 2, 3] (some [⟨2, 2, 2⟩]) [1, 1, 1, 1, 1] =
        .ok [[0, 1, 2, 2, 3], [0, 1, 2, 2, 3], [0, 1, 2, 2, 3]]) ∧
    Expanded sampleRopeTokens [⟨1, 1, 1⟩, ⟨1, 2, 2⟩] [7, 1, 7, 1, 2] ∧
      getRopeIndex sampleRopeTokens [7, 1, 7, 1, 2] (some [⟨1, 1, 1⟩, ⟨1, 2, 2⟩]) [1, 1, 1, 1, 1] =
        .error (.runtime
          "max(): Expected reduction dim to be specified for input.numel() == 0") := by
  have plain : ∀ ids : List Int, ids = [7] ∨ ids = [3] ∨ ids = [] → sampleRopeTokens.Plain ids := by
    rintro ids (rfl | rfl | rfl) <;> exact ⟨by decide, by decide⟩
  have frames : Expanded sampleRopeTokens [⟨2, 2, 2⟩] [7, 1, 2, 2, 3] :=
    @Expanded.image sampleRopeTokens ⟨2, 2,
      2⟩ [] [7] [3] (plain _ (by simp)) (.tail (plain _ (by simp)))
  have last : Expanded sampleRopeTokens [⟨1, 2, 2⟩] [7, 1, 2] :=
    @Expanded.image sampleRopeTokens ⟨1, 2,
      2⟩ [] [7] [] (plain _ (by simp)) (.tail (plain _ (by simp)))
  exact ⟨⟨frames, rfl⟩, @Expanded.image sampleRopeTokens ⟨1, 1, 1⟩ _ [7] _ (plain _ (by simp)) last,
    rfl⟩

end Samples

end Verl.Dataset
