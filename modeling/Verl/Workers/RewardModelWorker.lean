import Verl.Base.Replace
import Verl.Base.Text
import Verl.Dataset.Collate
import Verl.SeqlenBalancing.MicroBatches
import Verl.Workers.RewardManagers
import Verl.Workers.RmpadLogProbs

/-! `RewardModelWorker.compute_rm_score` of `verl/workers/fsdp_workers.py`: the conversations in the
template of the reward model, their scores in micro batches, and the scores at the tokens of the
original batch. The tokenizers and the reward model are parameters. What the ranks of a sequence
parallel group do is written for the group as a whole; after `preprocess_data` all of them hold the
same batch. -/
namespace Verl.Workers.RewardModel
open SeqlenBalancing
open Trainer (oneAt)
open Dataset (PyValue npArray asArray)

section Model

variable {K : Type}

structure Message where
  role : Text
  content : Text

structure Tokenizers where
  decode : List Nat → Text
  eosToken : Text
  applyChatTemplate : List Message → Py Text
  tokenize : Text → List Nat
  padTokenId : Nat
  /-- A conversation has a token. -/
  nonempty : ∀ chat text, applyChatTemplate chat = .ok text → tokenize text ≠ []

inductive Truncation where
  | left
  | right
  | error
  | other
  deriving DecidableEq

/-- The part of `config` that `compute_rm_score` reads; a configured `max_length` is positive. -/
structure RmConfig where
  doSwitchChatTemplate : Bool
  useRemovePadding : Bool
  maxLength : Option Nat
  truncation : Truncation
  useDynamicBsz : Bool
  forwardMaxTokenLenPerGpu : Nat
  microBatchSizePerGpu : Nat
  maxLength_pos : ∀ n ∈ maxLength, 0 < n

structure ChatRow where
  row : SequenceRow
  chat : List Message

/-- What the ranks of a sequence parallel group are sent: equal shares of a batch. `chats` are those
of the batch that `collate_fn` made, with a column `raw_prompt` where `return_raw_chat` is set. -/
structure Group where
  promptLength : Nat
  responseLength : Nat
  rowsPerRank : Nat
  returnRawChat : Bool
  chats : List (List Message)
  ranks : List (List ChatRow)
  collated : ∀ share ∈ ranks, ∀ item ∈ share, item.chat ∈ chats
  equalShares : ∀ share ∈ ranks, share.length = rowsPerRank
  promptsShape : ∀ share ∈ ranks, ∀ item ∈ share, item.row.prompts.length = promptLength
  responsesShape : ∀ share ∈ ranks, ∀ item ∈ share, item.row.responses.length = responseLength
  maskShape : ∀ share ∈ ranks, ∀ item ∈ share,
    item.row.attentionMask.length = promptLength + responseLength
  positionShape : ∀ share ∈ ranks, ∀ item ∈ share,
    item.row.positionIds.length = promptLength + responseLength
  spSize_pos : 0 < ranks.length

def Group.spSize (group : Group) : Nat := group.ranks.length

def Group.batch (group : Group) : MicroBatch where
  promptLength := group.promptLength
  responseLength := group.responseLength
  rows := group.ranks.flatten.map ChatRow.row
  promptsShape := by
    simp only [List.forall_mem_map, List.mem_flatten]
    exact fun item ⟨share, inGroup, inside⟩ => group.promptsShape share inGroup item inside
  responsesShape := by
    simp only [List.forall_mem_map, List.mem_flatten]
    exact fun item ⟨share, inGroup, inside⟩ => group.responsesShape share inGroup item inside
  maskShape := by
    simp only [List.forall_mem_map, List.mem_flatten]
    exact fun item ⟨share, inGroup, inside⟩ => group.maskShape share inGroup item inside
  positionShape := by
    simp only [List.forall_mem_map, List.mem_flatten]
    exact fun item ⟨share, inGroup, inside⟩ => group.positionShape share inGroup item inside

def maxLength (config : RmConfig) (group : Group) : Nat :=
  config.maxLength.getD (group.promptLength + group.responseLength)

def rawChat (chat : List Message) : PyValue Message := .list (chat.map .object)

def rawPrompt (group : Group) (item : ChatRow) : Py (PyValue Message) :=
  if group.returnRawChat then
    .ok (asArray (npArray (group.chats.map rawChat)).shape.length (rawChat item.chat))
  else .error (.key "raw_prompt")

/-- `chat.tolist()`, which an array has and a list has not. -/
def tolist : PyValue Message → Py (List Message)
  | .array items => items.mapM (fun item =>
      match item with
      | .object message => .ok message
      | _ => .error (.type "a message is a dictionary"))
  | _ => .error (.attribute "tolist")

def templateTokens (tools : Tokenizers) (responseLength : Nat) (row : SequenceRow)
    (chat : List Message) : Py (List Nat) := do
  let validResponseLength := (lastEntries responseLength row.attentionMask).count true
  let response := replace tools.eosToken [] (tools.decode (row.responses.take validResponseLength))
  let prompt ← tools.applyChatTemplate (chat ++ [⟨"assistant".toList, response⟩])
  return tools.tokenize prompt

/-- `tokenize_and_postprocess_data` behind the tokenizer, padding on the right: the ids and the
mask. -/
def postprocess (maxLength padTokenId : Nat) (truncation : Truncation) (inputIds : List Nat) :
    Py (List Nat × List Bool) := do
  pyAssert (truncation ≠ .other) "truncation in ['left', 'right', 'error']"
  let mask := List.replicate inputIds.length true
  if inputIds.length < maxLength then
    let padding := maxLength - inputIds.length
    return (inputIds ++ List.replicate padding padTokenId, mask ++ List.replicate padding false)
  else if maxLength < inputIds.length then
    match truncation with
    | .left => return (lastEntries maxLength inputIds, lastEntries maxLength mask)
    | .right => return (inputIds.take maxLength, mask.take maxLength)
    | _ => .error .notImplemented
  else return (inputIds, mask)

/-- The row of `rm_data`. It has no prompt and response of its own. -/
def rmRow (config : RmConfig) (tools : Tokenizers) (group : Group) (item : ChatRow) :
    Py SequenceRow := do
  let chat ← tolist (← rawPrompt group item)
  let inputIds ← templateTokens tools group.responseLength item.row chat
  let (inputIds, attentionMask) ← postprocess (maxLength config group) tools.padTokenId
    config.truncation inputIds
  return ⟨inputIds, [], attentionMask, computePositionIdWithMask attentionMask⟩

def switchChatTemplate (config : RmConfig) (tools : Tokenizers) (group : Group)
    (share : List ChatRow) : Py (List SequenceRow) := do
  let rows ← share.mapM (rmRow config tools group)
  if rows = [] then
    .error (.runtime "torch.cat(): expected a non-empty list of Tensors")
  else return rows

/-- The reward model: one reward for each token of a packed row, of the slices that the ranks have
of such a row, and of a padded batch. A whole padded batch on every rank of a larger group is left
open: the patched attention was not made for it. -/
structure RewardModule (K : Type) where
  packed : List (Nat × Nat) → List K
  onRanks : List (List (Nat × Nat)) → List (List K)
  padded : List SequenceRow → List (List K)
  paddedOnRanks : List SequenceRow → Py (List (List K))
  packedLength : ∀ tokens, (packed tokens).length = tokens.length
  /-- The reward at a token depends on its sequence up to it. -/
  causal : ∀ {xs ys : List (Nat × Nat)} {i j : Nat} {seen : List (Nat × Nat)},
    (segmentPrefixes startsSequence xs)[i]? = some seen →
    (segmentPrefixes startsSequence ys)[j]? = some seen →
    (packed xs)[i]? = (packed ys)[j]?
  /-- Together the ranks run the whole packed row. -/
  onRanksFlatten : ∀ {slices n}, (∀ s ∈ slices, s.length = n) →
    (onRanks slices).flatten = packed slices.flatten
  /-- On the valid tokens of a row the padded run gives what a packed run of that row gives. -/
  agrees : ∀ {batch : MicroBatch} {r : Nat} {row : SequenceRow} {left valid right : Nat},
    batch.rows[r]? = some row → row.Runs left valid right → ∀ k < valid,
    (padded batch.rows)[r]?.bind (fun rewards => rewards[left + k]?) =
    (packed (keep row.attentionMask row.tokens))[k]?
  paddedShape : ∀ rows, (padded rows).length = rows.length

variable [Zero K] (module : RewardModule K) (config : RmConfig)

def packTokens (spSize : Nat) (inputIds positionIds : List Nat) :
    Py (List (List (Nat × Nat)) × Nat) := do
  if spSize > 1 then
    let (ids, positions, padSize) ← ulyssesPadAndSliceInputs inputIds (some positionIds) spSize
    return (List.zipWith List.zip ids (positions.getD []), padSize)
  else return ([inputIds.zip positionIds], 0)

/-- `rm_score` of `_forward_micro_batch` with `use_remove_padding`. -/
def rmScoreRmpad (spSize seqlen : Nat) (rows : List SequenceRow) : Py (List (List K)) := do
  let (inputIdsRmpad, indices) :=
    unpadInput (rows.map SequenceRow.inputIds) (rows.map SequenceRow.attentionMask)
  let positionIdsRmpad := pick (rows.map SequenceRow.positionIds).flatten indices
  let (tokens, padSize) ← packTokens spSize inputIdsRmpad positionIdsRmpad
  let rewards := module.onRanks tokens
  let rewardRmpad := if spSize > 1 then gatherOutputsAndUnpad rewards padSize else rewards.flatten
  return padInput rewardRmpad indices rows.length seqlen

def forwardMicroBatch (spSize seqlen : Nat) (rows : List SequenceRow) : Py (List K) := do
  let rmScore ← if config.useRemovePadding then rmScoreRmpad module spSize seqlen rows
    else if spSize > 1 then module.paddedOnRanks rows
    else pure (module.padded rows)
  (rows.zip rmScore).mapM (fun (row, rewards) => pyGet rewards row.eosMaskIdx)

def tokenBatch (width : Nat) (rows : List SequenceRow)
    (rect : ∀ row ∈ rows, row.attentionMask.length = width) :
    TokenBatch SequenceRow where
  maxSeqLen := width
  rows := rows.map (fun row => ⟨row.attentionMask, row⟩)
  rect := by
    simp only [List.forall_mem_map]
    exact rect

/-- The scores of micro batches in the order of `rearrange_micro_batches`, put back. -/
def dynamicScores (spSize : Nat) (peers : Peers) (batch : TokenBatch SequenceRow) :
    Py (List K) := do
  let maxTokenLen := config.forwardMaxTokenLenPerGpu * spSize
  let (micro, indices) ← rearrangeMicroBatches batch maxTokenLen peers
  let output ← micro.mapM (fun rows =>
    forwardMicroBatch module config spSize batch.maxSeqLen (rows.map Row.cells))
  let count := indices.flatten.length
  let n := output.flatten.length
  pyAssert (count == n) s!"{count} vs. torch.Size([{n}])"
  let revertIndices ← getReverseIdx indices.flatten
  takeRows output.flatten revertIndices

def staticScores (spSize width : Nat) (rows : List SequenceRow) : Py (List K) := do
  let micro ← splitRows config.microBatchSizePerGpu rows
  let output ← micro.mapM (forwardMicroBatch module config spSize width)
  return output.flatten

def scoresOf (spSize : Nat) (peers : Peers) (rows : List SequenceRow) : Py (List K) :=
  let width := (rows.head?.map (fun row => row.attentionMask.length)).getD 0
  if rect : ∀ row ∈ rows, row.attentionMask.length = width then
    if config.useDynamicBsz then
      dynamicScores module config spSize peers (tokenBatch width rows rect)
    else staticScores module config spSize width rows
  else .error (.runtime "Sizes of tensors must match except in dimension 0.")

/-- `compute_rm_score`: the `rm_scores` of the ranks of a group. `peers` are the counts of micro
batches of the other groups. -/
def computeRmScore (tools : Tokenizers) (peers : Peers) (group : Group) :
    Py (List (List (List K))) :=
  if config.doSwitchChatTemplate then do
    let shares ← group.ranks.mapM (switchChatTemplate config tools group)
    let scores ← scoresOf module config group.spSize peers shares.flatten
    let tokenLevelScores ← expandToTokenLevel group.batch scores
    if group.spSize > 1 then chunkRows group.spSize tokenLevelScores else return [tokenLevelScores]
  else .error (.unboundLocal "rm_data")

end Model

section Conversations

variable {config : RmConfig} {tools : Tokenizers} {group : Group}

def conversation (tools : Tokenizers) (responseLength : Nat) (item : ChatRow) : Py (List Nat) :=
  templateTokens tools responseLength item.row item.chat

/-- The batch has the chats, and all of them have one number of messages. -/
structure ChatsFit (group : Group) : Prop where
  returnRawChat : group.returnRawChat = true
  messages : ∃ n, ∀ chat ∈ group.chats, chat.length = n

theorem asArray_rawChat (dims : Nat) (chat : List Message) :
    asArray (dims + 1) (rawChat chat) = .array (chat.map .object) := by
  have same : ∀ message : Message, asArray dims (.object message) = .object message := by
    intro message
    cases dims <;> rfl
  simp only [rawChat, asArray, List.map_map, Function.comp_def, same]

theorem tolist_array (chat : List Message) : tolist (.array (chat.map .object)) = .ok chat := by
  rw [tolist, List.mapM_map]
  exact (mapM_ok _ id chat (fun _ _ => rfl)).trans (by rw [List.map_id])

/-- The entry of the column is an array exactly where the chats have one number of messages. -/
theorem readChat_ok_iff {item : ChatRow} (member : item.chat ∈ group.chats) {chat : List Message} :
    (do tolist (← rawPrompt group item)) = .ok chat ↔ ChatsFit group ∧ chat = item.chat := by
  have nonempty : group.chats.map rawChat ≠ [] := by
    rw [ne_eq, List.map_eq_nil_iff]
    exact List.ne_nil_of_mem member
  have flat : (npArray (group.chats.map rawChat)).shape = [] ↔ ¬∃ n, ∀ chat ∈ group.chats,
      chat.length = n := by
    rw [Dataset.npArray_shape_iff nonempty]
    simp [rawChat, PyValue.len?]
  cases given : group.returnRawChat with
  | false =>
    simp only [rawPrompt, given]
    constructor
    · intro read
      cases read
    · rintro ⟨fit, -⟩
      rw [fit.returnRawChat] at given
      cases given
  | true =>
    simp only [rawPrompt, given, if_true, ok_bind]
    cases shape : (npArray (group.chats.map rawChat)).shape with
    | nil =>
      constructor
      · intro read
        cases read
      · rintro ⟨fit, -⟩
        exact absurd fit.messages (flat.mp shape)
    | cons n rest =>
      have messages : ∃ n, ∀ chat ∈ group.chats, chat.length = n := by
        by_contra differ
        rw [flat.mpr differ] at shape
        cases shape
      rw [List.length_cons, asArray_rawChat, tolist_array, Except.ok.injEq]
      exact ⟨fun same => ⟨⟨given, messages⟩, same.symm⟩, fun fit => fit.2.symm⟩

def keptTokens (truncation : Truncation) (maxLength : Nat) (tokens : List Nat) : List Nat :=
  match truncation with
  | .left => lastEntries maxLength tokens
  | _ => tokens.take maxLength

def rmRowOf (maxLength padTokenId : Nat) (kept : List Nat) : SequenceRow :=
  let attentionMask :=
    List.replicate kept.length true ++ List.replicate (maxLength - kept.length) false
  ⟨kept ++ List.replicate (maxLength - kept.length) padTokenId, [], attentionMask,
    computePositionIdWithMask attentionMask⟩

theorem lastEntries_of_le {n : Nat} {xs : List α} (positive : 0 < n) (short : xs.length ≤ n) :
    lastEntries n xs = xs := by
  rw [lastEntries, if_neg (by omega), Nat.sub_eq_zero_of_le short, List.drop_zero]

theorem length_keptTokens (truncation : Truncation) {n : Nat} (positive : 0 < n)
    (tokens : List Nat) : (keptTokens truncation n tokens).length = min n tokens.length := by
  cases truncation with
  | left =>
    rw [keptTokens, lastEntries, if_neg (by omega), List.length_drop]
    omega
  | right => exact List.length_take
  | error => exact List.length_take
  | other => exact List.length_take

theorem keptTokens_of_le {truncation : Truncation} {n : Nat} {tokens : List Nat} (positive : 0 < n)
    (short : tokens.length ≤ n) :
    keptTokens truncation n tokens = tokens := by
  cases truncation with
  | left => exact lastEntries_of_le positive short
  | right => exact List.take_of_length_le short
  | error => exact List.take_of_length_le short
  | other => exact List.take_of_length_le short

theorem lastEntries_replicate {n m : Nat} (positive : 0 < n) (long : n ≤ m) (x : α) :
    lastEntries n (List.replicate m x) = List.replicate n x := by
  rw [lastEntries, if_neg (by omega), List.length_replicate, List.drop_replicate]
  congr 1
  omega

theorem postprocess_ok {truncation : Truncation} {n padTokenId : Nat} {tokens : List Nat}
    (positive : 0 < n)
    (known : truncation ≠ .other) (fits : truncation = .error → tokens.length ≤ n) :
    postprocess n padTokenId truncation tokens =
      .ok ((rmRowOf n padTokenId (keptTokens truncation n tokens)).prompts,
        (rmRowOf n padTokenId (keptTokens truncation n tokens)).attentionMask) := by
  have count := length_keptTokens truncation positive tokens
  rw [postprocess, decide_eq_true known, pyAssert_true, ok_bind]
  by_cases short : tokens.length < n
  · rw [if_pos short, keptTokens_of_le positive short.le]
    rfl
  · have full : n - (keptTokens truncation n tokens).length = 0 := by omega
    simp only [if_neg short, rmRowOf, full, List.replicate_zero, List.append_nil]
    by_cases long : n < tokens.length
    · rw [if_pos long, count, Nat.min_eq_left long.le]
      cases truncation with
      | left => simp only [lastEntries_replicate positive long.le, keptTokens, pure_eq_ok]
      | right => simp only [List.take_replicate, keptTokens, pure_eq_ok, Nat.min_eq_left long.le]
      | error => exact absurd (fits rfl) (Nat.not_le_of_lt long)
      | other => exact absurd rfl known
    · rw [if_neg long, keptTokens_of_le positive (Nat.le_of_not_lt long)]
      rfl

theorem of_postprocess_ok {truncation : Truncation} {n padTokenId : Nat} {tokens : List Nat}
    {out : List Nat × List Bool} (returned : postprocess n padTokenId truncation tokens = .ok out) :
    truncation ≠ .other ∧ (truncation = .error → tokens.length ≤ n) := by
  rw [postprocess, bind_ok_iff] at returned
  obtain ⟨_, known, rest⟩ := returned
  refine ⟨of_decide_eq_true (pyAssert_ok_iff.mp known), ?_⟩
  rintro rfl
  by_contra long
  rw [if_neg (by omega), if_pos (by omega)] at rest
  cases rest

theorem maxLength_pos (config : RmConfig) (text : group.batch.IsText)
    (some : group.batch.rows ≠ []) : 0 < maxLength config group := by
  rw [maxLength]
  cases configured : config.maxLength with
  | some n => exact config.maxLength_pos n (by simp [configured])
  | none =>
    obtain ⟨row, member⟩ := List.exists_mem_of_ne_nil _ some
    obtain ⟨left, valid, right, first, isText⟩ := text row member
    have prompt : left < group.promptLength := isText.prompt
    rw [Option.getD_none]
    omega

/-- The tokens of a row's conversation that the reward model sees; nothing where the template
raises. -/
def ownTokens (config : RmConfig) (tools : Tokenizers) (group : Group) (item : ChatRow) :
    List Nat :=
  match conversation tools group.responseLength item with
  | .ok tokens => keptTokens config.truncation (maxLength config group) tokens
  | .error _ => []

/-- The conversation has a template and, with `truncation='error'`, no more tokens than
`max_length`. -/
def Converses (config : RmConfig) (tools : Tokenizers) (group : Group) (item : ChatRow) : Prop :=
  ∃ tokens, conversation tools group.responseLength item = .ok tokens ∧
    (config.truncation = .error → tokens.length ≤ maxLength config group)

theorem rmRow_ok {item : ChatRow} (member : item.chat ∈ group.chats) (chats : ChatsFit group)
    (positive : 0 < maxLength config group) (known : config.truncation ≠ .other)
    (converses : Converses config tools group item) :
    rmRow config tools group item =
      .ok (rmRowOf (maxLength config group) tools.padTokenId
      (ownTokens config tools group item)) := by
  obtain ⟨tokens, talked, fits⟩ := converses
  have read := (readChat_ok_iff member).mpr ⟨chats, rfl⟩
  obtain ⟨entry, present, listed⟩ := bind_ok_iff.mp read
  have own : templateTokens tools group.responseLength item.row item.chat = .ok tokens := talked
  simp only [rmRow, ownTokens, present, listed, own, talked, ok_bind,
    postprocess_ok positive known fits, pure_eq_ok]
  rfl

theorem of_rmRow_ok {item : ChatRow} (member : item.chat ∈ group.chats) {row : SequenceRow}
    (returned : rmRow config tools group item = .ok row) :
    ChatsFit group ∧ config.truncation ≠ .other ∧ Converses config tools group item := by
  simp only [rmRow, bind_ok_iff] at returned
  obtain ⟨entry, present, chat, listed, tokens, talked, _, cut, _⟩ := returned
  obtain ⟨chats, rfl⟩ := (readChat_ok_iff member).mp (bind_ok_iff.mpr ⟨entry, present, listed⟩)
  obtain ⟨known, fits⟩ := of_postprocess_ok cut
  exact ⟨chats, known, tokens, talked, fits⟩

theorem ownTokens_bounds {item : ChatRow} (positive : 0 < maxLength config group)
    (converses : Converses config tools group item) :
    0 < (ownTokens config tools group item).length ∧
      (ownTokens config tools group item).length ≤ maxLength config group := by
  obtain ⟨tokens, talked, -⟩ := converses
  have some : tokens ≠ [] := by
    simp only [conversation, templateTokens, bind_ok_iff, pure_eq_ok, Except.ok.injEq] at talked
    obtain ⟨text, applied, rfl⟩ := talked
    exact tools.nonempty _ _ applied
  have length := List.length_pos_iff.mpr some
  simp only [ownTokens, talked, length_keptTokens _ positive]
  omega

end Conversations

section Forward

variable {K : Type} {width padTokenId : Nat} {kept : List Nat}

def rewardOf [Zero K] (module : RewardModule K) (kept : List Nat) : K :=
  ((module.packed kept.zipIdx).getLast?).getD 0

theorem rmRowOf_mask : (rmRowOf width padTokenId kept).attentionMask =
    List.replicate 0 false ++
      (List.replicate kept.length true ++ List.replicate (width - kept.length) false) := rfl

theorem rmRowOf_positionIds : (rmRowOf width padTokenId kept).positionIds =
    List.range kept.length ++ List.replicate (width - kept.length) (kept.length - 1) :=
  positions_of_run 0 kept.length (width - kept.length)

theorem rmRowOf_keep :
    keep (rmRowOf width padTokenId kept).attentionMask (rmRowOf width padTokenId kept).tokens =
    kept.zipIdx := by
  have ids : (rmRowOf width padTokenId kept).inputIds =
    kept ++ List.replicate (width - kept.length) padTokenId :=
    List.append_nil _
  rw [SequenceRow.tokens, ids, rmRowOf_positionIds, List.zip_append (by simp), rmRowOf_mask,
    List.replicate_zero, List.nil_append, keep_append (by simp), keep_true (by simp),
    keep_false (by simp), List.append_nil, List.zipIdx_eq_zip_range', List.range_eq_range']

theorem rmRowOf_runs (width padTokenId : Nat) (some : 0 < kept.length) :
    (rmRowOf width padTokenId kept).Runs 0 kept.length (width - kept.length) := by
  refine ⟨rmRowOf_mask, some, ?_, ?_⟩
  · rw [rmRowOf_positionIds, List.getElem?_append_left (by simpa using some)]
    simp [some]
  · intro k positive inside
    rw [rmRowOf_positionIds, Nat.zero_add, List.getElem?_append_left (by simpa using inside)]
    simp [inside]
    omega

theorem rmRowOf_eosMaskIdx (width padTokenId : Nat) (some : 0 < kept.length) :
    (rmRowOf width padTokenId kept).eosMaskIdx = kept.length - 1 := by
  have entries : List.zipWith (fun position valid => if valid then position
    else 0) (rmRowOf width padTokenId kept).positionIds
      (rmRowOf width padTokenId kept).attentionMask =
        List.range kept.length ++ List.replicate (width - kept.length) 0 := by
    rw [rmRowOf_positionIds, rmRowOf_mask, List.replicate_zero, List.nil_append,
      List.zipWith_append (by simp)]
    congr 1
    · apply List.ext_getElem <;> simp
    · apply List.ext_getElem <;> simp
  rw [SequenceRow.eosMaskIdx, entries]
  have last : (List.range kept.length ++ List.replicate (width - kept.length) 0)[kept.length - 1]? =
      Option.some (kept.length - 1) := by
    rw [List.getElem?_append_left (by rw [List.length_range]; omega),
      List.getElem?_range (by omega)]
  refine argmax_eq last ?_ ?_
  · intro j x earlier there
    rw [List.getElem?_append_left (by simp; omega), List.getElem?_range (by omega)] at there
    obtain rfl := Option.some.inj there
    exact earlier
  · intro x member
    rcases List.mem_append.mp member with counted | padded
    · exact Nat.le_sub_one_of_lt (List.mem_range.mp counted)
    · rw [List.eq_of_mem_replicate padded]
      exact Nat.zero_le _

def rmBatch (width padTokenId : Nat) (kepts : List (List Nat))
    (fits : ∀ kept ∈ kepts, kept.length ≤ width) : MicroBatch where
  promptLength := width
  responseLength := 0
  rows := kepts.map (rmRowOf width padTokenId)
  promptsShape := by
    rw [List.forall_mem_map]
    intro kept member
    have room := fits kept member
    simp only [rmRowOf, List.length_append, List.length_replicate]
    omega
  responsesShape := by
    rw [List.forall_mem_map]
    exact fun kept member => rfl
  maskShape := by
    rw [List.forall_mem_map]
    intro kept member
    have room := fits kept member
    simp only [rmRowOf, List.length_append, List.length_replicate]
    omega
  positionShape := by
    rw [List.forall_mem_map]
    intro kept member
    have room := fits kept member
    simp only [rmRowOf_positionIds, List.length_append, List.length_range, List.length_replicate]
    omega

theorem packTokens_spec (spSize : Nat) {inputIds positionIds : List Nat}
    (same : inputIds.length = positionIds.length) :
    ∃ tokens padSize padTokens, packTokens spSize inputIds positionIds = .ok (tokens, padSize) ∧
      tokens.flatten = inputIds.zip positionIds ++ padTokens ∧ padTokens.length = padSize ∧
        (spSize ≤ 1 → padSize = 0) ∧
      ∃ n, ∀ s ∈ tokens, s.length = n := by
  obtain ⟨tokens, labels, padSize, padTokens, -, packs, flat, -, length, -, -, equal⟩ :=
    packInputs_spec spSize same
  rw [packInputs] at packs
  split at packs
  · rename_i several
    simp only [bind_ok_iff, pure_eq_ok, Except.ok.injEq] at packs
    obtain ⟨⟨ids, positions, size⟩, cut, _, _, result⟩ := packs
    obtain ⟨rfl, -, rfl⟩ := Prod.mk.injEq .. ▸ result
    refine ⟨_, _, padTokens, ?_, flat, length, fun one =>
      absurd one (Nat.not_le_of_gt several), equal⟩
    rw [packTokens, if_pos several, cut]
    rfl
  · rename_i alone
    cases packs
    exact ⟨_, _, padTokens, if_neg alone, flat, length, fun _ => rfl, equal⟩

variable [Zero K] (module : RewardModule K) (config : RmConfig) {kepts : List (List Nat)}

theorem last_reward (some : 0 < kept.length) :
    (module.packed kept.zipIdx)[kept.length - 1]? = Option.some (rewardOf module kept) := by
  have length := module.packedLength kept.zipIdx
  rw [List.length_zipIdx] at length
  rw [rewardOf, List.getLast?_eq_getElem?, length, List.getElem?_eq_getElem (by omega)]
  rfl

theorem rmScoreRmpad_eq (padTokenId spSize : Nat) (fits : ∀ kept ∈ kepts, kept.length ≤ width) :
    ∃ padTokens, rmScoreRmpad module spSize width (kepts.map (rmRowOf width padTokenId)) =
      .ok (padInput ((module.packed ((rmBatch width padTokenId kepts fits).packedTokens ++
        padTokens)).take
        (rmBatch width padTokenId kepts fits).packedTokens.length)
          (nonzero (rmBatch width padTokenId kepts fits).mask)
        (rmBatch width padTokenId kepts fits).rows.length
          (rmBatch width padTokenId kepts fits).seqlen) := by
  let batch := rmBatch width padTokenId kepts fits
  have ids := pick_nonzero (length_mask_inputIds batch)
  have positions := pick_nonzero (length_mask_positionIds batch)
  obtain ⟨tokens, padSize, padTokens, packs, flat, length, none, n, equal⟩ := packTokens_spec spSize
    ((length_keep (length_mask_inputIds batch)).trans
      (length_keep (length_mask_positionIds batch)).symm)
  refine ⟨padTokens, ?_⟩
  rw [← packedTokens_eq] at flat
  have whole : (module.onRanks tokens).flatten =
      module.packed (batch.packedTokens ++ padTokens) := by
    rw [module.onRanksFlatten equal, flat]
  have total : (module.onRanks tokens).flatten.length = batch.packedTokens.length + padSize := by
    rw [whole, module.packedLength, List.length_append, length]
  have gathered : (if spSize > 1 then gatherOutputsAndUnpad (module.onRanks tokens) padSize
    else (module.onRanks tokens).flatten) =
      (module.packed (batch.packedTokens ++ padTokens)).take batch.packedTokens.length := by
    split
    · rw [gather_take total, whole]
    · rename_i alone
      have zero := none (Nat.le_of_not_gt alone)
      rw [← whole, List.take_of_length_le (by omega)]
  have rows : kepts.map (rmRowOf width padTokenId) = batch.rows := rfl
  have masked : (batch.rows.map SequenceRow.attentionMask).flatten = batch.mask := rfl
  simp only [rmScoreRmpad, rows, unpadInput, masked, ids, positions, packs, ok_bind,
    pure_eq_ok, gathered]
  rfl

/-- `rm_score` with the rewards of the conversations at their last tokens. -/
structure AtEnds (kepts : List (List Nat)) (rmScore : List (List K)) : Prop where
  rows : rmScore.length = kepts.length
  last : ∀ (r : Nat) kept, kepts[r]? = some kept →
    rmScore[r]?.bind (fun out => out[kept.length - 1]?) = some (rewardOf module kept)

theorem rmBatch_row (padTokenId : Nat) (fits : ∀ kept ∈ kepts, kept.length ≤ width) {r : Nat}
    (there : kepts[r]? = some kept) :
    (rmBatch width padTokenId kepts fits).rows[r]? = some (rmRowOf width padTokenId kept) := by
  rw [rmBatch, List.getElem?_map, there]
  rfl

theorem rmpad_atEnds (padTokenId spSize : Nat)
    (each : ∀ kept ∈ kepts, 0 < kept.length ∧ kept.length ≤ width) :
    ∃ rmScore, rmScoreRmpad module spSize width (kepts.map (rmRowOf width padTokenId)) =
      .ok rmScore ∧ AtEnds module kepts rmScore := by
  have fits : ∀ kept ∈ kepts, kept.length ≤ width := fun kept member => (each kept member).2
  obtain ⟨padTokens, run⟩ := rmScoreRmpad_eq module padTokenId spSize fits
  refine ⟨_, run, by simp [padInput, rmBatch], fun r kept there => ?_⟩
  have some := (each kept (List.mem_of_getElem? there)).1
  have found := rmBatch_row padTokenId fits there
  have runs := rmRowOf_runs width padTokenId some
  obtain ⟨inBatch, alone⟩ := packed_seen found runs padTokens (Nat.sub_one_lt_of_lt some)
  have value := module.causal inBatch alone
  rw [rmRowOf_keep, last_reward module some] at value
  obtain ⟨out, row, entry, -⟩ := padInput_entry found runs (Nat.sub_one_lt_of_lt some)
    ((List.getElem?_take_of_lt (rank_lt_packed found runs (Nat.sub_one_lt_of_lt some))).trans value)
  rw [row, Option.bind_some, ← entry, Nat.zero_add]

theorem padded_atEnds (each : ∀ kept ∈ kepts, 0 < kept.length ∧ kept.length ≤ width) :
    AtEnds module kepts (module.padded (kepts.map (rmRowOf width padTokenId))) := by
  have fits : ∀ kept ∈ kepts, kept.length ≤ width := fun kept member => (each kept member).2
  refine ⟨by rw [module.paddedShape, List.length_map], fun r kept there => ?_⟩
  have some := (each kept (List.mem_of_getElem? there)).1
  have found := rmBatch_row padTokenId fits there
  have agrees := module.agrees found (rmRowOf_runs width padTokenId some)
    _ (Nat.sub_one_lt_of_lt some)
  rwa [rmRowOf_keep, last_reward module some, Nat.zero_add] at agrees

theorem forwardMicroBatch_eq {spSize : Nat}
    (supported : config.useRemovePadding = true ∨ spSize ≤ 1)
    (each : ∀ kept ∈ kepts, 0 < kept.length ∧ kept.length ≤ width) :
    forwardMicroBatch module config spSize width (kepts.map (rmRowOf width padTokenId)) =
      .ok (kepts.map (rewardOf module)) := by
  have read : ∀ rmScore, AtEnds module kepts rmScore →
      ((kepts.map (rmRowOf width padTokenId)).zip rmScore).mapM
        (fun (row, rewards) => pyGet rewards row.eosMaskIdx) =
        .ok (kepts.map (rewardOf module)) := by
    intro rmScore ends
    rw [List.zip_map_left, List.mapM_map]
    apply mapM_zip_ok ends.rows
    intro r kept out there entry
    have last := ends.last r kept there
    rw [entry, Option.bind_some] at last
    have index := rmRowOf_eosMaskIdx width padTokenId (each kept (List.mem_of_getElem? there)).1
    simp only [Function.comp_apply, Prod.map_apply, id_eq, index, pyGet, last]
  rw [forwardMicroBatch]
  by_cases rmpad : config.useRemovePadding = true
  · obtain ⟨rmScore, run, ends⟩ := rmpad_atEnds module padTokenId spSize each
    rw [if_pos rmpad, run, ok_bind]
    exact read rmScore ends
  · have alone : ¬spSize > 1 := Nat.not_lt_of_le (supported.resolve_left rmpad)
    rw [if_neg rmpad, if_neg alone, pure_eq_ok, ok_bind]
    exact read _ (padded_atEnds module each)

end Forward

section Scores

variable {K : Type} [Zero K] {module : RewardModule K} {config : RmConfig}
  {width padTokenId spSize : Nat} {peers : Peers} {kepts : List (List Nat)}
  {rows : List SequenceRow}

def RmRows (width padTokenId : Nat) (rows : List SequenceRow) : Prop :=
  ∀ row ∈ rows, ∃ kept : List Nat, 0 < kept.length ∧ kept.length ≤ width ∧
    row = rmRowOf width padTokenId kept

def rowReward (module : RewardModule K) (row : SequenceRow) : K :=
  ((module.packed (keep row.attentionMask row.tokens)).getLast?).getD 0

theorem rowReward_rmRowOf (kept : List Nat) :
    rowReward module (rmRowOf width padTokenId kept) = rewardOf module kept := by
  rw [rowReward, rmRowOf_keep, rewardOf]

theorem RmRows.exists_kepts (rm : RmRows width padTokenId rows) :
    ∃ kepts : List (List Nat), (∀ kept ∈ kepts, 0 < kept.length ∧ kept.length ≤ width) ∧
      rows = kepts.map (rmRowOf width padTokenId) := by
  induction rows with
  | nil => exact ⟨[], by simp, rfl⟩
  | cons row rows ih =>
    obtain ⟨kept, some, fits, rfl⟩ := rm row List.mem_cons_self
    obtain ⟨kepts, each, rfl⟩ := ih (fun other later => rm other (List.mem_cons_of_mem _ later))
    exact ⟨kept :: kepts, List.forall_mem_cons.mpr ⟨⟨some, fits⟩, each⟩, rfl⟩

theorem RmRows.forward (rm : RmRows width padTokenId rows)
    (supported : config.useRemovePadding = true ∨ spSize ≤ 1) :
    forwardMicroBatch module config spSize width rows = .ok (rows.map (rowReward module)) := by
  obtain ⟨kepts, each, rfl⟩ := rm.exists_kepts
  rw [forwardMicroBatch_eq module config supported each, List.map_map]
  congr 1
  exact List.map_congr_left (fun kept _ => (rowReward_rmRowOf kept).symm)

theorem staticScores_eq (rm : RmRows width padTokenId rows)
    (supported : config.useRemovePadding = true ∨ spSize ≤ 1)
    (positive : 0 < config.microBatchSizePerGpu) :
    staticScores module config spSize width rows = .ok (rows.map (rowReward module)) := by
  have whole := flatten_split positive rows
  have pieces := mapM_ok (forwardMicroBatch module config spSize width)
    (List.map (rowReward module))
    (split config.microBatchSizePerGpu rows) (fun piece member => by
      refine @RmRows.forward K _ module config width padTokenId spSize piece (fun row inside =>
        rm row ?_) supported
      rw [← whole]
      exact List.mem_flatten.mpr ⟨piece, member, inside⟩)
  rw [staticScores, splitRows, if_neg (Nat.pos_iff_ne_zero.mp positive), ok_bind, pieces,
    ok_bind, ← List.map_flatten, whole]
  rfl

theorem dynamicScores_eq {rect : ∀ row ∈ rows, row.attentionMask.length = width}
    (rm : RmRows width padTokenId rows)
    (supported : config.useRemovePadding = true ∨ spSize ≤ 1)
    {micro : List (List (Row SequenceRow))} {indices : List (List Nat)}
    (returned : rearrangeMicroBatches (tokenBatch width rows rect)
      (config.forwardMaxTokenLenPerGpu * spSize) peers = .ok (micro, indices)) :
    dynamicScores module config spSize peers (tokenBatch width rows rect) =
      .ok (rows.map (rowReward module)) := by
  obtain ⟨-, perm, taken⟩ := rearrangeMicroBatches_ok returned
  have cells : (tokenBatch width rows rect).rows.map Row.cells = rows := by
    rw [tokenBatch, List.map_map]
    exact List.map_id rows
  have pieces := mapM_ok (fun piece : List (Row SequenceRow) =>
    forwardMicroBatch module config spSize width (piece.map Row.cells))
    (fun piece => piece.map (fun row => rowReward module row.cells)) micro (fun piece member => by
      have inside : RmRows width padTokenId (piece.map Row.cells) := by
        intro row there
        obtain ⟨source, inPiece, rfl⟩ := List.mem_map.mp there
        have picked := List.mem_flatten.mpr ⟨piece, member, inPiece⟩
        rw [taken] at picked
        apply rm
        rw [← cells]
        exact List.mem_map_of_mem (mem_of_mem_pick picked)
      rw [inside.forward supported, List.map_map]
      rfl)
  have output : (micro.map (fun piece =>
    piece.map (fun row => rowReward module row.cells))).flatten =
      pick (rows.map (rowReward module)) indices.flatten := by
    rw [← List.map_flatten, taken, ← pick_map, tokenBatch, List.map_map]
    rfl
  have length : (tokenBatch width rows rect).rows.length =
      (rows.map (rowReward module)).length := by
    simp [tokenBatch]
  rw [length] at perm
  obtain ⟨rev, reversed, back⟩ := takeRows_getReverseIdx perm
  have count : indices.flatten.length =
      (pick (rows.map (rowReward module)) indices.flatten).length := by
    rw [length_pick (perm_inside perm)]
  have agree : (indices.flatten.length ==
    (pick (rows.map (rowReward module)) indices.flatten).length) = true := beq_iff_eq.mpr count
  have seqlen : (tokenBatch width rows rect).maxSeqLen = width := rfl
  simp only [dynamicScores, returned, ok_bind, seqlen, pieces, output, agree, pyAssert_true,
    reversed, back]

theorem RmRows.rect (rm : RmRows width padTokenId rows) :
    ∀ row ∈ rows, row.attentionMask.length = width := by
  intro row member
  obtain ⟨kept, -, fits, rfl⟩ := rm row member
  simp only [rmRowOf, List.length_append, List.length_replicate]
  omega

theorem RmRows.one_le_sum (rm : RmRows width padTokenId rows) (some : rows ≠ []) :
    1 ≤ (tokenBatch width rows rm.rect).seqLens.sum := by
  obtain ⟨row, member⟩ := List.exists_mem_of_ne_nil _ some
  obtain ⟨kept, positive, -, same⟩ := rm row member
  have count : row.attentionMask.count true = kept.length := by
    rw [same, rmRowOf_mask]
    simp [List.count_replicate]
  have inside : row.attentionMask.count true ∈ (tokenBatch width rows rm.rect).seqLens := by
    simp only [TokenBatch.seqLens, tokenBatch, List.map_map]
    exact List.mem_map_of_mem member
  have sum := List.le_sum_of_mem inside
  omega

theorem scoresOf_eq (rm : RmRows width padTokenId rows) (some : rows ≠ []) :
    scoresOf module config spSize peers rows =
      if config.useDynamicBsz then
        dynamicScores module config spSize peers (tokenBatch width rows rm.rect)
      else staticScores module config spSize width rows := by
  have head : (rows.head?.map (fun row => row.attentionMask.length)).getD 0 = width := by
    obtain ⟨row, rest, rfl⟩ := List.exists_cons_of_ne_nil some
    exact rm.rect row List.mem_cons_self
  rw [scoresOf]
  generalize first : (rows.head?.map (fun row => row.attentionMask.length)).getD 0 = w
  obtain rfl : w = width := first.symm.trans head
  exact dif_pos rm.rect

structure MicroBatchesFit (config : RmConfig) (spSize : Nat) (peers : Peers) (width rows : Nat) :
    Prop where
  dynamic : config.useDynamicBsz = true → width ≤ config.forwardMaxTokenLenPerGpu * spSize ∧
    peers.Within rows
  static : config.useDynamicBsz = false → 0 < config.microBatchSizePerGpu

theorem scoresOf_ok (rm : RmRows width padTokenId rows) (some : rows ≠ [])
    (supported : config.useRemovePadding = true ∨ spSize ≤ 1)
    (fit : MicroBatchesFit config spSize peers width rows.length) :
    scoresOf module config spSize peers rows = .ok (rows.map (rowReward module)) := by
  rw [scoresOf_eq rm some]
  cases dynamic : config.useDynamicBsz with
  | true =>
    have length : (tokenBatch width rows rm.rect).rows.length = rows.length := List.length_map _
    obtain ⟨micro, indices, returned⟩ :=
      (rearrangeMicroBatches_iff (rm.one_le_sum some)).mpr (length ▸ fit.dynamic dynamic)
    exact dynamicScores_eq rm supported returned
  | false => exact staticScores_eq rm supported (fit.static dynamic)

theorem fit_of_scoresOf (rm : RmRows width padTokenId rows) (some : rows ≠ []) {scores : List K}
    (returned : scoresOf module config spSize peers rows = .ok scores) :
    MicroBatchesFit config spSize peers width rows.length := by
  rw [scoresOf_eq rm some] at returned
  constructor
  · intro dynamic
    rw [dynamic, if_pos rfl, dynamicScores, bind_ok_iff] at returned
    obtain ⟨⟨micro, indices⟩, cut, -⟩ := returned
    have length : (tokenBatch width rows rm.rect).rows.length = rows.length := List.length_map _
    exact length ▸ (rearrangeMicroBatches_iff (rm.one_le_sum some)).mp ⟨micro, indices, cut⟩
  · intro static
    rw [static, if_neg Bool.false_ne_true, staticScores, splitRows] at returned
    by_contra zero
    rw [if_pos (by omega)] at returned
    cases returned

end Scores

section Whole

variable {K : Type} [Zero K] (module : RewardModule K) (config : RmConfig) (tools : Tokenizers)
  (peers : Peers) (group : Group)

/-- `reward` holds, at the row's last valid response token, the reward of the row's own
conversation. -/
def RowScored (item : ChatRow) (reward : List K) : Prop :=
  ∃ tokens last, conversation tools group.responseLength item = .ok tokens ∧
    item.row.LastResponseToken group.promptLength last ∧ last < group.responseLength ∧
    reward = oneAt group.responseLength last 0
      (rewardOf module (keptTokens config.truncation (maxLength config group) tokens))

/-- The call returns, and every row of every rank is scored so. -/
def ScoresOwnConversations : Prop :=
  ∃ outputs, computeRmScore module config tools peers group = .ok outputs ∧
    List.Forall₂ (List.Forall₂ (RowScored module config tools group)) group.ranks outputs

structure Templated : Prop where
  rows : 0 < group.rowsPerRank
  chats : ChatsFit group
  truncation : config.truncation ≠ .other
  conversations : ∀ share ∈ group.ranks, ∀ item ∈ share, Converses config tools group item

structure Fits : Prop extends Templated config tools group where
  switches : config.doSwitchChatTemplate = true
  micro : MicroBatchesFit config group.spSize peers (maxLength config group) group.batch.rows.length

variable {module config tools peers group}

def rewardRow (module : RewardModule K) (config : RmConfig) (tools : Tokenizers) (group : Group)
    (item : ChatRow) : List K :=
  lastTokenReward group.batch item.row (rewardOf module (ownTokens config tools group item))

def rmItem (config : RmConfig) (tools : Tokenizers) (group : Group) (item : ChatRow) :
    SequenceRow :=
  rmRowOf (maxLength config group) tools.padTokenId (ownTokens config tools group item)

theorem length_batch : group.batch.rows.length = group.spSize * group.rowsPerRank := by
  rw [Group.batch, List.length_map, List.length_flatten, List.map_congr_left group.equalShares]
  simp [Group.spSize]

namespace Templated

variable (templated : Templated config tools group)

include templated

theorem nonempty : group.batch.rows ≠ [] := by
  rw [← List.length_pos_iff, length_batch]
  exact Nat.mul_pos group.spSize_pos templated.rows

theorem switchChatTemplate_ok (positive : 0 < maxLength config group) :
    group.ranks.mapM (switchChatTemplate config tools group) =
      .ok (group.ranks.map (List.map (rmItem config tools group))) := by
  apply mapM_ok
  intro share member
  have each := mapM_ok (rmRow config tools group) (rmItem config tools group) share
    (fun item inside =>
      rmRow_ok (group.collated share member item inside) templated.chats positive
      templated.truncation
      (templated.conversations share member item inside))
  have some : share.map (rmItem config tools group) ≠ [] := by
    rw [← List.length_pos_iff, List.length_map, group.equalShares share member]
    exact templated.rows
  rw [switchChatTemplate, each, ok_bind, if_neg some]
  rfl

theorem rmRows (positive : 0 < maxLength config group) :
    RmRows (maxLength config group) tools.padTokenId
      (group.ranks.flatten.map (rmItem config tools group)) := by
  intro row member
  obtain ⟨item, inside, rfl⟩ := List.mem_map.mp member
  obtain ⟨share, inGroup, inShare⟩ := List.mem_flatten.mp inside
  have bounds := ownTokens_bounds positive (templated.conversations share inGroup item inShare)
  exact ⟨_, bounds.1, bounds.2, rfl⟩

end Templated

theorem length_rmItems :
    (group.ranks.flatten.map (rmItem config tools group)).length = group.batch.rows.length := by
  rw [Group.batch, List.length_map, List.length_map]

theorem templated_of_switched {shares : List (List SequenceRow)}
    (switched : group.ranks.mapM (switchChatTemplate config tools group) = .ok shares) :
    Templated config tools group := by
  have each : ∀ share ∈ group.ranks, 0 < share.length ∧
      ∀ item ∈ share, ChatsFit group ∧ config.truncation ≠ .other ∧
        Converses config tools group item := by
    intro share member
    obtain ⟨rows, run⟩ := exists_of_mapM_ok switched member
    rw [switchChatTemplate, bind_ok_iff] at run
    obtain ⟨rows, made, some⟩ := run
    split at some
    · cases some
    · rename_i nonempty
      refine ⟨?_, fun item inside => ?_⟩
      · rw [← length_mapM_ok made]
        exact List.length_pos_iff.mpr nonempty
      · obtain ⟨row, made⟩ := exists_of_mapM_ok made inside
        exact of_rmRow_ok (group.collated share member item inside) made
  obtain ⟨share, member⟩ := List.exists_mem_of_length_pos group.spSize_pos
  obtain ⟨positive, items⟩ := each share member
  obtain ⟨item, inside⟩ := List.exists_mem_of_length_pos positive
  obtain ⟨chats, known, -⟩ := items item inside
  exact ⟨group.equalShares share member ▸ positive, chats, known, fun share member item inside =>
    ((each share member).2 item inside).2.2⟩

theorem expand_ok (text : group.batch.IsText) :
    expandToTokenLevel group.batch
      (group.ranks.flatten.map (fun item => rewardOf module (ownTokens config tools group item))) =
      .ok ((group.ranks.map (List.map (rewardRow module config tools group))).flatten) := by
  rw [expandToTokenLevel_eq text (by rw [List.length_map, Group.batch, List.length_map]),
    lastTokenRewards, ← List.map_flatten]
  congr 1
  rw [Group.batch, List.zipWith_map, List.zipWith_self]
  rfl

omit [Zero K] in
theorem split_ok {tokenLevel : List (List (List K))}
    (shares : ∀ share ∈ tokenLevel, share.length = group.rowsPerRank)
    (ranks : tokenLevel.length = group.spSize) :
    (if group.spSize > 1 then chunkRows group.spSize tokenLevel.flatten
      else pure [tokenLevel.flatten]) = .ok tokenLevel := by
  have total : tokenLevel.flatten.length = group.spSize * group.rowsPerRank := by
    rw [List.length_flatten, List.map_congr_left shares]
    simp [ranks]
  split
  · have some : 0 < group.spSize := group.spSize_pos
    have rest : (tokenLevel.flatten.length % group.spSize == 0) = true := by simp [total]
    have share : tokenLevel.flatten.length / group.spSize = group.rowsPerRank := by
      rw [total, Nat.mul_div_cancel_left _ some]
    simp only [chunkRows, pyMod_pos some, ok_bind, rest, pyAssert_true, share, pure_eq_ok]
    rw [← ranks, blocks_flatten _ _ shares]
  · rename_i alone
    have one : tokenLevel.length = 1 := by
      have some := group.spSize_pos
      rw [ranks]
      exact Nat.le_antisymm (Nat.le_of_not_gt alone) some
    obtain ⟨share, rfl⟩ := List.length_eq_one_iff.mp one
    simp

theorem computeRmScore_ok (text : group.batch.IsText)
    (supported : config.useRemovePadding = true ∨ group.spSize ≤ 1)
    (fits : Fits config tools peers group) :
    computeRmScore module config tools peers group =
      .ok (group.ranks.map (List.map (rewardRow module config tools group))) := by
  have positive := maxLength_pos config text fits.nonempty
  have some : group.ranks.flatten.map (rmItem config tools group) ≠ [] := by
    rw [← List.length_pos_iff, length_rmItems]
    exact List.length_pos_iff.mpr fits.nonempty
  have scores : scoresOf module config group.spSize peers
    (group.ranks.flatten.map (rmItem config tools group)) = _ :=
    scoresOf_ok (fits.rmRows positive) some supported (length_rmItems ▸ fits.micro)
  have own : (group.ranks.flatten.map (rmItem config tools group)).map (rowReward module) =
      group.ranks.flatten.map
        (fun item => rewardOf module (ownTokens config tools group item)) := by
    rw [List.map_map]
    exact List.map_congr_left (fun item _ => rowReward_rmRowOf _)
  rw [computeRmScore, if_pos fits.switches, fits.switchChatTemplate_ok positive,
    ok_bind, ← List.map_flatten, scores, ok_bind, own, expand_ok text, ok_bind]
  apply split_ok
  · intro out member
    obtain ⟨share, inGroup, rfl⟩ := List.mem_map.mp member
    rw [List.length_map, group.equalShares share inGroup]
  · rw [List.length_map, Group.spSize]

theorem fits_of_returned (text : group.batch.IsText) {outputs : List (List (List K))}
    (returned : computeRmScore module config tools peers group = .ok outputs) :
    Fits config tools peers group := by
  rw [computeRmScore] at returned
  split at returned
  · rename_i switches
    rw [bind_ok_iff] at returned
    obtain ⟨shares, switched, rest⟩ := returned
    obtain ⟨scores, scored, -⟩ := bind_ok_iff.mp rest
    have templated := templated_of_switched switched
    have positive := maxLength_pos config text templated.nonempty
    have some : group.ranks.flatten.map (rmItem config tools group) ≠ [] := by
      rw [← List.length_pos_iff, length_rmItems]
      exact List.length_pos_iff.mpr templated.nonempty
    rw [templated.switchChatTemplate_ok positive] at switched
    rw [← Except.ok.inj switched, ← List.map_flatten] at scored
    have fit := fit_of_scoresOf (templated.rmRows positive) some scored
    exact ⟨templated, switches, length_rmItems ▸ fit⟩
  · cases returned

theorem rowScored_rewardRow (text : group.batch.IsText) (templated : Templated config tools group)
    {share : List ChatRow}
    (inGroup : share ∈ group.ranks) {item : ChatRow} (inShare : item ∈ share) :
    RowScored module config tools group item (rewardRow module config tools group item) := by
  obtain ⟨tokens, talked, -⟩ := templated.conversations share inGroup item inShare
  have member : item.row ∈ group.batch.rows :=
    List.mem_map_of_mem (List.mem_flatten.mpr ⟨share, inGroup, inShare⟩)
  obtain ⟨left, valid, right, first, isText⟩ := text item.row member
  have inside := validResponseLength_pos text member
  rw [isText.validResponseLength_eq] at inside
  have room : left + valid - group.batch.promptLength - 1 < group.responseLength := by
    have most : left + valid - group.batch.promptLength ≤ group.responseLength := inside.2
    omega
  refine ⟨tokens, _, talked, isText.lastResponseToken, room, ?_⟩
  simp only [rewardRow, lastTokenReward, ownTokens, talked, isText.validResponseLength_eq]
  rfl

/-- Every row is scored with the reward of its own conversation exactly when the template is
switched and the conversations and micro batches fit. -/
theorem rm_scores_own_conversations_iff (text : group.batch.IsText)
    (supported : config.useRemovePadding = true ∨ group.spSize ≤ 1) :
    ScoresOwnConversations module config tools peers group ↔ Fits config tools peers group := by
  constructor
  · rintro ⟨outputs, returned, -⟩
    exact fits_of_returned text returned
  · intro fits
    refine ⟨_, computeRmScore_ok text supported fits, ?_⟩
    rw [List.forall₂_map_right_iff, List.forall₂_same]
    intro share inGroup
    rw [List.forall₂_map_right_iff, List.forall₂_same]
    exact fun item inShare => rowScored_rewardRow text fits.toTemplated inGroup inShare

end Whole

section Runs

variable {K : Type} (reward : List (Nat × Nat) → K)

def prefixRewards (rows : List SequenceRow) : List (List K) :=
  rows.map (fun row => (List.range row.attentionMask.length).map (fun p =>
    reward (keep (row.attentionMask.take (p + 1)) (row.tokens.take (p + 1)))))

theorem prefixRewards_agrees {batch : MicroBatch} {r : Nat} {row : SequenceRow}
    {left valid right : Nat} (found : batch.rows[r]? = some row) (runs : row.Runs left valid right)
    (k : Nat) (hk : k < valid) :
    (prefixRewards reward batch.rows)[r]?.bind (fun rewards => rewards[left + k]?) =
      ((segmentPrefixes startsSequence (keep row.attentionMask row.tokens)).map reward)[k]? := by
  have sizes := runs_length found runs
  have width : row.attentionMask.length = batch.seqlen := batch.maskShape row (mem_rows found)
  have alone := (packed_seen found runs [] hk).2
  rw [prefixRewards, List.getElem?_map, found, Option.map_some, Option.bind_some, List.getElem?_map,
    List.getElem?_range (by omega), Option.map_some, Nat.add_assoc, keep_take_row found runs hk,
    List.getElem?_map, alone,
    Option.map_some]

def prefixModule : RewardModule K where
  packed tokens := (segmentPrefixes startsSequence tokens).map reward
  onRanks slices := blocks ((slices.head?.map List.length).getD 0) slices.length
    ((segmentPrefixes startsSequence slices.flatten).map reward)
  padded := prefixRewards reward
  paddedOnRanks _ := .error (.runtime "shape mismatch")
  packedLength _ := (List.length_map _).trans (length_segmentsFrom _ _ _)
  causal here there := by rw [List.getElem?_map, List.getElem?_map, here, there]
  onRanksFlatten equal := by
    refine (blocks_like equal ?_).2
    rw [List.length_map, segmentPrefixes, length_segmentsFrom]
  agrees := prefixRewards_agrees reward
  paddedShape _ := List.length_map _

def sumModule : RewardModule Int := prefixModule (fun seen => ((seen.map Prod.fst).sum : Nat))

def letterTokenizers : Tokenizers where
  decode ids := ids.map Char.ofNat
  eosToken := "$".toList
  applyChatTemplate chat :=
    .ok ('|' :: chat.flatMap (fun message => message.role ++ ':' :: message.content))
  tokenize text := text.map Char.toNat
  padTokenId := 0
  nonempty chat text applied := by
    cases applied
    exact List.cons_ne_nil _ _

/-- Two ranks with a row each; the responses are `hi$` and `o$`. -/
def chatPair : Group where
  promptLength := 2
  responseLength := 3
  rowsPerRank := 1
  returnRawChat := true
  chats := [[⟨"user".toList, "a".toList⟩], [⟨"user".toList, "bc".toList⟩]]
  ranks := [[⟨⟨[0, 97], [104, 105, 36], [false, true, true, true, true], [0, 0, 1, 2, 3]⟩,
    [⟨"user".toList, "a".toList⟩]⟩],
    [⟨⟨[98, 99], [111, 36, 0], [true, true, true, true, false], [0, 1, 2, 3, 4]⟩,
    [⟨"user".toList, "bc".toList⟩]⟩]]
  collated := by simp
  equalShares := by simp
  promptsShape := by simp
  responsesShape := by simp
  maskShape := by simp
  positionShape := by simp
  spSize_pos := by decide

theorem chatPair_isText : chatPair.batch.IsText := by
  intro row member
  simp only [Group.batch, chatPair, List.flatten_cons, List.flatten_nil, List.cons_append,
    List.nil_append, List.map_cons, List.map_nil, List.mem_cons, List.not_mem_nil,
    or_false] at member
  rcases member with rfl | rfl
  · exact ⟨1, 4, 0, 0, rfl, by decide, by decide, by decide⟩
  · exact ⟨0, 4, 1, 0, rfl, by decide, by decide, by decide⟩

def dynamicConfig (doSwitchChatTemplate : Bool) : RmConfig where
  doSwitchChatTemplate := doSwitchChatTemplate
  useRemovePadding := true
  maxLength := some 16
  truncation := .right
  useDynamicBsz := true
  forwardMaxTokenLenPerGpu := 8
  microBatchSizePerGpu := 1
  maxLength_pos := by simp

theorem chatPair_fits : Fits (dynamicConfig true) letterTokenizers none chatPair where
  rows := by decide
  chats := ⟨rfl, 1, by simp [chatPair]⟩
  truncation := by decide
  conversations share inGroup item inShare := ⟨_, rfl, fun other => by cases other⟩
  switches := rfl
  micro := ⟨fun _ => ⟨by decide, fun counts other => by cases other⟩, fun other => by cases other⟩

theorem rm_scores_own_conversations_chatPair :
    ScoresOwnConversations sumModule (dynamicConfig true) letterTokenizers none chatPair :=
  (rm_scores_own_conversations_iff chatPair_isText (.inl rfl)).mpr chatPair_fits

/-- Without an input tokenizer `rm_data` is never bound. -/
theorem rm_scores_unbound :
    ¬ScoresOwnConversations sumModule (dynamicConfig false) letterTokenizers none chatPair := by
  rintro ⟨outputs, returned, -⟩
  cases returned

end Runs

end Verl.Workers.RewardModel
