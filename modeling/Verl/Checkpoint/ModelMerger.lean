import Mathlib.Data.List.Induction
import Mathlib.Data.List.Infix
import Verl.Base.Dict
import Verl.Base.Text

/-! `scripts/model_merger.py`: the FSDP shards of a checkpoint directory merged into one state
dict. -/
namespace Verl.Checkpoint.ModelMerger

inductive Placement where
  | replicate
  | partialReduce
  | shard (dim : Int)
  | unsupported
  deriving DecidableEq

structure DeviceMesh where
  mesh : List Nat
  meshDimNames : Option (List String)
  positive : ∀ size ∈ mesh, 0 < size

structure DTensor (T : Type) where
  localTensor : T
  placements : List Placement
  deviceMesh : DeviceMesh

inductive Value (T : Type) where
  | dtensor (tensor : DTensor T)
  | tensor (tensor : T)
  /-- Neither a tensor nor anything else with a `bfloat16`. -/
  | other

structure Torch (T : Type) where
  bfloat16 : T → T
  cat : List T → Int → Py T

inductive AutoModel where
  | tokenClassification
  | causalLM
  | vision2Seq
  deriving DecidableEq

structure CheckpointDir (T : Type) where
  localDir : Text
  listdir : List Text
  /-- `torch.load` of a file of the directory; a missing or unreadable one raises. -/
  load : Text → Py (Dict (Value T))
  /-- The architectures in the config of its `huggingface` folder. -/
  architectures : Py (List Text)
  /-- Whether the model can be built from the config. -/
  fromConfig : AutoModel → Py Unit

variable {T : Type}

section Model

def mergeByPlacement (torch : Torch T) (tensors : List T) : Placement → Py T
  | .replicate => pyGet tensors 0
  | .partialReduce => .error .notImplemented
  | .shard dim => torch.cat tensors dim
  | .unsupported => .error (.value "Unsupported placement")

/-- `re.match(r"model_world_size_(\d+)_rank_0\.pt", filename)` and its group. -/
def matchRankZero (filename : Text) : Option Text :=
  match "model_world_size_".toList.isPrefixOf? filename with
  | none => none
  | some rest =>
    let digits := rest.takeWhile Char.isDigit
    if digits ≠ [] ∧ "_rank_0.pt".toList <+: rest.dropWhile Char.isDigit then some digits else none

def shardName (worldSize : Text) (rank : Nat) : Text :=
  "model_world_size_".toList ++ worldSize ++ "_rank_".toList ++ Text.ofNat rank ++ ".pt".toList

structure Opened (T : Type) where
  worldSize : Text
  stateDict : Dict (Value T)
  totalShards : Nat
  positive : 0 < totalShards

/-- The script up to `total_shards`. The other mesh, with two dimensions, is refused. -/
def openDir (dir : CheckpointDir T) : Py (Opened T) := do
  pyAssert (!"huggingface".toList.isSuffixOf dir.localDir)
    "The local_dir should not end with huggingface"
  match dir.listdir.findSome? matchRankZero with
  | none => .error (.assertion "No model file with the proper format")
  | some worldSize =>
    let stateDict ← dir.load (shardName worldSize 0)
    let pivotKey ← pyGet (stateDict.keys.mergeSort (fun a b => a ≤ b)) 0
    match ← stateDict.getItem pivotKey with
    | .dtensor weight =>
      pyAssert (weight.deviceMesh.meshDimNames == some ["fsdp"]) "Unsupported mesh_dim_names"
      match shape : weight.deviceMesh.mesh.getLast? with
      | some totalShards =>
        return ⟨worldSize, stateDict, totalShards,
        weight.deviceMesh.positive _ (List.mem_of_getLast? shape)⟩
      | none => .error .index
    | _ => .error (.assertion "")

/-- The order in which the pool stores the shards of the ranks after 0. -/
structure PoolOrder where
  order : Nat → List Nat
  perm : ∀ totalShards, (order totalShards).Perm (List.range' 1 (totalShards - 1))

/-- `model_state_dict_lst` after the pool: the exception of a load stays in its future, and the
entry stays `""`. -/
def loadShards (dir : CheckpointDir T) (opened : Opened T) (pool : PoolOrder) :
    List (Option (Dict (Value T))) :=
  (pool.order opened.totalShards).foldl (fun lst rank =>
      match dir.load (shardName opened.worldSize rank) with
      | .ok stateDict => lst.set rank (some stateDict)
      | .error _ => lst)
    (some opened.stateDict :: List.replicate (opened.totalShards - 1) none)

inductive Entry (T : Type) where
  | list (shards : List T)
  | tensor (tensor : T)

structure Collected (T : Type) where
  entry : Entry T
  placements : Option (List Placement)

def Collected.start : Collected T := ⟨.list [], none⟩

def addTensor (torch : Torch T) (c : Collected T) : Value T → Py (Collected T)
  | .dtensor tensor =>
    match c.entry with
    | .tensor _ => .error (.attribute "append")
    | .list shards =>
      match c.placements with
      | none => .ok ⟨.list (shards ++ [torch.bfloat16 tensor.localTensor]), some tensor.placements⟩
      | some placements => do
        pyAssert (placements == tensor.placements) ""
        return ⟨.list (shards ++ [torch.bfloat16 tensor.localTensor]), some placements⟩
  | .tensor tensor => .ok { c with entry := .tensor (torch.bfloat16 tensor) }
  | .other => .error (.attribute "bfloat16")

structure Loop (T : Type) where
  tensor : Option (Value T)
  collected : Collected T

/-- One shard: when `pop` raises, whatever the reason, `tensor` keeps its value. A key is popped
once from each shard, so that it is removed makes no difference. -/
def popStep (torch : Torch T) (s : Loop T) (popped : Option (Value T)) : Py (Loop T) :=
  match popped.or s.tensor with
  | none => .error (.unboundLocal "tensor")
  | some tensor => do
    let collected ← addTensor torch s.collected tensor
    return ⟨some tensor, collected⟩

def popped (shards : List (Option (Dict (Value T)))) (key : String) : List (Option (Value T)) :=
  shards.map (fun shard => shard.bind (fun stateDict => stateDict.get? key))

def collectKeys (torch : Torch T) (shards : List (Option (Dict (Value T)))) (keys : List String) :
    Py (Option (Value T) × Dict (Collected T)) :=
  keys.foldlM (fun s key => do
      let loop ← (popped shards key).foldlM (popStep torch) ⟨s.1, .start⟩
      return (loop.tensor, s.2.set key loop.collected))
    (none, .empty)

/-- One key of the second loop, on a mesh with one dimension. An entry is replaced by what is merged
from it alone, so that the keys are sorted decides only which error is raised first. -/
def mergeEntry (torch : Torch T) (key : String) (c : Collected T) : Py T :=
  match c.entry with
  | .tensor tensor => .ok tensor
  | .list shards =>
    match c.placements with
    | none => .error (.key key)
    | some placements => do
      pyAssert (placements.length == 1) ""
      let placement ← pyGet placements 0
      mergeByPlacement torch shards placement

def autoModel (architectures : List Text) : Py AutoModel := do
  let architecture ← pyGet architectures 0
  if "ForTokenClassification".toList <:+: architecture then return .tokenClassification
  else if "ForCausalLM".toList <:+: architecture then return .causalLM
  else if "ForConditionalGeneration".toList <:+: architecture then return .vision2Seq
  else .error .notImplemented

def buildModel (dir : CheckpointDir T) : Py Unit := do
  let architectures ← dir.architectures
  let model ← autoModel architectures
  dir.fromConfig model

/-- The state dict that is written; an error when the script fails without writing. -/
def merge (torch : Torch T) (dir : CheckpointDir T) (pool : PoolOrder) : Py (Dict T) := do
  let opened ← openDir dir
  let (_, stateDict) ← collectKeys torch (loadShards dir opened pool) opened.stateDict.keys
  let written ← stateDict.mapKVM (mergeEntry torch)
  buildModel dir
  return written

end Model

section Concatenation

def HasShard (dir : CheckpointDir T) (opened : Opened T) (key : String) (rank : Nat)
    (tensor : DTensor T) : Prop :=
  ∃ stateDict, dir.load (shardName opened.worldSize rank) = .ok stateDict ∧
    stateDict.get? key = some (.dtensor tensor)

/-- Some shard file holds a part of the parameter. -/
def Sharded (dir : CheckpointDir T) (opened : Opened T) (key : String) : Prop :=
  ∃ rank < opened.totalShards, ∃ tensor dim, HasShard dir opened key rank tensor ∧
    .shard dim ∈ tensor.placements

/-- Every sharded parameter is the concatenation of one shard from each rank, in the order of the
ranks. -/
def Concatenated (torch : Torch T) (dir : CheckpointDir T) (opened : Opened T) (written : Dict T) :
    Prop :=
  ∀ key, Sharded dir opened key → ∃ shards : List (DTensor T), shards.length = opened.totalShards ∧
    (∀ rank (inside : rank < shards.length), HasShard dir opened key rank shards[rank]) ∧
    ∃ dim out, (∀ tensor ∈ shards, tensor.placements = [.shard dim]) ∧
      torch.cat (shards.map (fun tensor => torch.bfloat16 tensor.localTensor)) dim = .ok out ∧
        written.get? key = some out

/-- The script fails without writing, or writes the concatenations. -/
def MergesSafely (torch : Torch T) (dir : CheckpointDir T) (pool : PoolOrder) : Prop :=
  ∀ written, merge torch dir pool = .ok written → ∃ opened, openDir dir = .ok opened ∧
    Concatenated torch dir opened written

/-- Every shard file is there and holds every sharded parameter as a DTensor. -/
def Complete (dir : CheckpointDir T) (opened : Opened T) : Prop :=
  ∀ key, Sharded dir opened key → ∀ rank < opened.totalShards, ∃ tensor,
    HasShard dir opened key rank tensor

def carryForward {α : Type} : Option α → List (Option α) → List (Option α)
  | _, [] => []
  | carried, x :: xs => x.or carried :: carryForward (x.or carried) xs

def held (dir : CheckpointDir T) (opened : Opened T) (key : String) : List (Option (Value T)) :=
  (List.range opened.totalShards).map (fun rank =>
    (dir.load (shardName opened.worldSize rank)).toOption.bind (fun stateDict =>
      stateDict.get? key))

/-- With the gaps filled, first DTensors with the same placements and then plain tensors; and when
there are no plain tensors, DTensors with one placement along which they can be merged. -/
def Acceptable (torch : Torch T) (values : List (Option (Value T))) : Prop :=
  ∃ (shards : List (DTensor T)) (plain : List T),
    values = (shards.map Value.dtensor ++ plain.map Value.tensor).map some ∧
    (∀ a ∈ shards, ∀ b ∈ shards, a.placements = b.placements) ∧
    (plain = [] → ∃ placement out, shards.head?.map DTensor.placements = some [placement] ∧
      mergeByPlacement torch (shards.map (fun tensor => torch.bfloat16 tensor.localTensor))
        placement = .ok out)

/-- Nothing of what the shard files hold makes the script fail. -/
structure Passes (torch : Torch T) (dir : CheckpointDir T) (opened : Opened T) : Prop where
  keys : ∀ key ∈ opened.stateDict.keys, Acceptable torch (carryForward none (held dir opened key))
  model : buildModel dir = .ok ()

end Concatenation

section Collect

variable {torch : Torch T}

def collected (torch : Torch T) (shards : List (DTensor T)) (plain : List T) : Collected T :=
  ⟨match plain.getLast? with
    | none => .list (shards.map (fun tensor => torch.bfloat16 tensor.localTensor))
    | some tensor => .tensor (torch.bfloat16 tensor),
    shards.head?.map DTensor.placements⟩

def addCarried (torch : Torch T) (c : Collected T) (value : Option (Value T)) : Py (Collected T) :=
  match value with
  | none => .error (.unboundLocal "tensor")
  | some tensor => addTensor torch c tensor

theorem popSteps_eq (values : List (Option (Value T))) (s : Loop T) :
    (values.foldlM (popStep torch) s).map Loop.collected =
      (carryForward s.tensor values).foldlM (addCarried torch) s.collected := by
  induction values generalizing s with
  | nil => rfl
  | cons value values ih =>
    rw [carryForward, List.foldlM_cons, List.foldlM_cons, popStep]
    cases value.or s.tensor with
    | none => rfl
    | some tensor =>
      simp only [addCarried]
      cases addTensor torch s.collected tensor with
      | error => rfl
      | ok c => exact ih ⟨some tensor, c⟩

theorem collect_concat {values : List (Option (Value T))} {value : Option (Value T)}
    {c c' : Collected T} : (values ++ [value]).foldlM (addCarried torch) c = .ok c' ↔
      ∃ middle, values.foldlM (addCarried torch) c = .ok middle ∧
        addCarried torch middle value = .ok c' := by
  simp only [List.foldlM_append, List.foldlM_cons, List.foldlM_nil, bind_pure, bind_ok_iff]

theorem collected_dtensor {shards : List (DTensor T)} {plain : List T} {tensor : DTensor T}
    {c : Collected T} (agree : ∀ a ∈ shards, ∀ b ∈ shards, a.placements = b.placements) :
    addTensor torch (collected torch shards plain) (.dtensor tensor) = .ok c ↔
      plain = [] ∧ (∀ a ∈ shards, a.placements = tensor.placements) ∧
        c = collected torch (shards ++ [tensor]) [] := by
  rcases List.eq_nil_or_concat plain with rfl | ⟨plain, last, rfl⟩
  · cases shards with
    | nil => simp [addTensor, collected, eq_comm]
    | cons first rest =>
      have all : (∀ a ∈ first :: rest, a.placements = tensor.placements) ↔
          first.placements = tensor.placements := by
        constructor
        · exact fun each => each first List.mem_cons_self
        · exact fun same a member => (agree a member first List.mem_cons_self).trans same
      rw [all]
      by_cases same : first.placements = tensor.placements
      · simp [addTensor, collected, same, eq_comm]
      · simp [addTensor, collected, same, pyAssert]
  · simp [addTensor, collected]

/-- What has been collected goes on with one more DTensor of the same placements before any plain
tensor, and with a plain tensor always. -/
theorem collected_of_addCarried {shards : List (DTensor T)} {plain : List T}
    {value : Option (Value T)} {c : Collected T}
    (agree : ∀ a ∈ shards, ∀ b ∈ shards, a.placements = b.placements)
    (added : addCarried torch (collected torch shards plain) value = .ok c) :
    ∃ shards' plain', (shards.map Value.dtensor ++ plain.map Value.tensor).map some ++ [value] =
        (shards'.map Value.dtensor ++ plain'.map Value.tensor).map some ∧
      (∀ a ∈ shards', ∀ b ∈ shards', a.placements = b.placements) ∧
        c = collected torch shards' plain' := by
  cases value with
  | none => cases added
  | some value =>
    cases value with
    | dtensor tensor =>
      obtain ⟨rfl, same, rfl⟩ := (collected_dtensor agree).mp added
      refine ⟨shards ++ [tensor], [], by simp, ?_, rfl⟩
      intro a first b second
      have toTensor : ∀ x ∈ shards ++ [tensor], x.placements = tensor.placements := by
        intro x member
        rcases List.mem_append.mp member with old | new
        · exact same x old
        · rw [List.mem_singleton.mp new]
      exact (toTensor a first).trans (toTensor b second).symm
    | tensor tensor =>
      refine ⟨shards, plain ++ [tensor], by simp, agree, ?_⟩
      simp only [addCarried, addTensor, Except.ok.injEq] at added
      simp [← added, collected]
    | other => cases added

theorem addCarried_of_split {shards : List (DTensor T)} {plain : List T}
    {values : List (Option (Value T))} {value : Option (Value T)}
    (split : values ++ [value] = (shards.map Value.dtensor ++ plain.map Value.tensor).map some)
    (agree : ∀ a ∈ shards, ∀ b ∈ shards, a.placements = b.placements) :
    ∃ shards' plain', values = (shards'.map Value.dtensor ++ plain'.map Value.tensor).map some ∧
      (∀ a ∈ shards', ∀ b ∈ shards', a.placements = b.placements) ∧
      addCarried torch (collected torch shards' plain') value =
        .ok (collected torch shards plain) := by
  rcases List.eq_nil_or_concat plain with rfl | ⟨plain, last, rfl⟩
  · rcases List.eq_nil_or_concat shards with rfl | ⟨shards, last, rfl⟩
    · simp at split
    · have ends : values ++ [value] =
        (shards.map Value.dtensor ++ ([] : List T).map Value.tensor).map some ++
        [some (.dtensor last)] :=
        split.trans (by simp)
      obtain ⟨rfl, same⟩ := List.append_inj' ends rfl
      obtain rfl : value = some (.dtensor last) := List.cons.inj same |>.1
      have before : ∀ a ∈ shards, ∀ b ∈ shards, a.placements = b.placements := by
        intro a first b second
        exact agree a (by simp [first]) b (by simp [second])
      refine ⟨shards, [], rfl, before, ?_⟩
      refine (collected_dtensor before).mpr ⟨rfl, ?_, by rw [List.concat_eq_append]⟩
      intro a member
      exact agree a (by simp [member]) last (by simp)
  · have ends : values ++ [value] = (shards.map Value.dtensor ++ plain.map Value.tensor).map some ++
      [some (.tensor last)] :=
      split.trans (by simp)
    obtain ⟨rfl, same⟩ := List.append_inj' ends rfl
    obtain rfl : value = some (.tensor last) := List.cons.inj same |>.1
    refine ⟨shards, plain, rfl, agree, ?_⟩
    simp [addCarried, addTensor, collected]

/-- The loop over the shards succeeds on DTensors with the same placements, followed by plain
tensors. -/
theorem collect_ok_iff {values : List (Option (Value T))} {c : Collected T} :
    values.foldlM (addCarried torch) .start = .ok c ↔
      ∃ shards plain, values = (shards.map Value.dtensor ++ plain.map Value.tensor).map some ∧
        (∀ a ∈ shards, ∀ b ∈ shards, a.placements = b.placements) ∧
          c = collected torch shards plain := by
  induction values using List.reverseRecOn generalizing c with
  | nil =>
    constructor
    · intro run
      cases run
      exact ⟨[], [], rfl, by simp, rfl⟩
    · rintro ⟨shards, plain, empty, -, rfl⟩
      have none := congrArg List.length empty
      simp only [List.length_nil, List.length_map, List.length_append] at none
      obtain rfl : shards = [] := List.length_eq_zero_iff.mp (by omega)
      obtain rfl : plain = [] := List.length_eq_zero_iff.mp (by omega)
      rfl
  | append_singleton values value ih =>
    rw [collect_concat]
    constructor
    · rintro ⟨middle, run, added⟩
      obtain ⟨shards, plain, rfl, agree, rfl⟩ := ih.mp run
      exact collected_of_addCarried agree added
    · rintro ⟨shards, plain, split, agree, rfl⟩
      obtain ⟨before, plainBefore, rfl, agreed, added⟩ := addCarried_of_split split agree
      exact ⟨_, ih.mpr ⟨before, plainBefore, rfl, agreed, rfl⟩, added⟩

theorem mergeEntry_collected {shards : List (DTensor T)} {plain : List T} (key : String) (out : T) :
    mergeEntry torch key (collected torch shards plain) = .ok out ↔
      (∃ tensor, plain.getLast? = some tensor ∧ out = torch.bfloat16 tensor) ∨
      (plain = [] ∧ ∃ placement, shards.head?.map DTensor.placements = some [placement] ∧
        mergeByPlacement torch (shards.map (fun tensor => torch.bfloat16 tensor.localTensor))
          placement = .ok out) := by
  rcases List.eq_nil_or_concat plain with rfl | ⟨plain, last, rfl⟩
  · cases shards with
    | nil => simp [mergeEntry, collected]
    | cons first rest =>
      obtain ⟨localTensor, placements, deviceMesh⟩ := first
      cases placements with
      | nil => simp [mergeEntry, collected, pyAssert]
      | cons placement more =>
        cases more with
        | nil => simp [mergeEntry, collected, pyGet]
        | cons second more => simp [mergeEntry, collected, pyAssert]
  · have ends : mergeEntry torch key (collected torch shards (plain.concat last)) =
        .ok (torch.bfloat16 last) := by
      simp [mergeEntry, collected]
    rw [ends, Except.ok.injEq, List.concat_eq_append, List.getLast?_concat]
    constructor
    · exact fun same => .inl ⟨last, rfl, same.symm⟩
    · rintro (⟨tensor, same, rfl⟩ | ⟨impossible, -⟩)
      · rw [Option.some.inj same]
      · simp at impossible

theorem acceptable_iff {values : List (Option (Value T))} (key : String) : Acceptable torch values ↔
    ∃ c, values.foldlM (addCarried torch) .start = .ok c ∧ ∃ out,
      mergeEntry torch key c = .ok out := by
  constructor
  · rintro ⟨shards, plain, same, agree, mergeable⟩
    refine ⟨_, collect_ok_iff.mpr ⟨shards, plain, same, agree, rfl⟩, ?_⟩
    cases last : plain.getLast? with
    | none =>
      have none := List.getLast?_eq_none_iff.mp last
      obtain ⟨placement, out, head, merged⟩ := mergeable none
      exact ⟨out, (mergeEntry_collected key out).mpr (.inr ⟨none, placement, head, merged⟩)⟩
    | some tensor => exact ⟨_, (mergeEntry_collected key _).mpr (.inl ⟨tensor, last, rfl⟩)⟩
  · rintro ⟨c, run, out, merged⟩
    obtain ⟨shards, plain, same, agree, rfl⟩ := collect_ok_iff.mp run
    refine ⟨shards, plain, same, agree, ?_⟩
    rintro rfl
    rcases (mergeEntry_collected key out).mp merged with ⟨tensor, impossible, -⟩ | ⟨-,
      placement, head, merged⟩
    · cases impossible
    · exact ⟨placement, out, head, merged⟩

end Collect

section Loads

variable {dir : CheckpointDir T} {opened : Opened T}

theorem getElem?_loads (worldSize : Text) (order : List Nat) (lst : List (Option (Dict (Value T))))
    (rank : Nat) : (order.foldl (fun lst rank =>
      match dir.load (shardName worldSize rank) with
      | .ok stateDict => lst.set rank (some stateDict)
      | .error _ => lst) lst)[rank]? =
    if rank ∈ order then
      lst[rank]?.map (fun old => (dir.load (shardName worldSize rank)).toOption.or old)
    else lst[rank]? := by
  induction order generalizing lst with
  | nil => rfl
  | cons first order ih =>
    rw [List.foldl_cons, ih]
    have step : (match dir.load (shardName worldSize first) with
        | .ok stateDict => lst.set first (some stateDict)
        | .error _ => lst)[rank]? =
        if rank = first then
          lst[rank]?.map (fun old => (dir.load (shardName worldSize rank)).toOption.or old)
        else lst[rank]? := by
      by_cases here : rank = first
      · subst here
        cases dir.load (shardName worldSize rank) with
        | error => simp [Except.toOption]
        | ok stateDict =>
          simp only [Except.toOption, Option.some_or, if_true, List.getElem?_set_self']
          cases lst[rank]? <;> rfl
      · cases dir.load (shardName worldSize first) with
        | error => simp [here]
        | ok stateDict => simp [here, List.getElem?_set_ne (fun same => here same.symm)]
    rw [step]
    by_cases here : rank = first
    · simp only [here, if_true, List.mem_cons, true_or]
      split
      · rw [Option.map_map]
        congr 1
        funext old
        cases dir.load (shardName worldSize first) <;> rfl
      · rfl
    · simp [here]

theorem load_zero (opening : openDir dir = .ok opened) :
    dir.load (shardName opened.worldSize 0) = .ok opened.stateDict := by
  simp only [openDir, bind_ok_iff] at opening
  obtain ⟨_, -, opening⟩ := opening
  split at opening
  · cases opening
  · obtain ⟨stateDict, loaded, opening⟩ := bind_ok_iff.mp opening
    obtain ⟨_, -, opening⟩ := bind_ok_iff.mp opening
    obtain ⟨value, -, opening⟩ := bind_ok_iff.mp opening
    split at opening
    · obtain ⟨_, -, opening⟩ := bind_ok_iff.mp opening
      split at opening
      · cases opening
        exact loaded
      · cases opening
    · cases opening

/-- The pool's order does not matter, and a shard that cannot be loaded leaves a gap. -/
theorem loadShards_eq (opening : openDir dir = .ok opened) (pool : PoolOrder) :
    loadShards dir opened pool =
    (List.range opened.totalShards).map
      (fun rank => (dir.load (shardName opened.worldSize rank)).toOption) := by
  have first := load_zero opening
  have mem : ∀ rank, rank ∈ pool.order opened.totalShards ↔
      1 ≤ rank ∧ rank < opened.totalShards := by
    intro rank
    have positive := opened.positive
    rw [(pool.perm opened.totalShards).mem_iff, List.mem_range'_1]
    omega
  apply List.ext_getElem?
  intro rank
  rw [loadShards, getElem?_loads, List.getElem?_map]
  cases rank with
  | zero => simp [mem, opened.positive, first, Except.toOption]
  | succ rank =>
    by_cases inside : rank + 1 < opened.totalShards
    · have gap : rank < opened.totalShards - 1 := by omega
      simp [mem, inside, gap]
    · have gap : ¬rank < opened.totalShards - 1 := by omega
      simp [mem, inside, gap]

end Loads

section Keys

variable {torch : Torch T} {shards : List (Option (Dict (Value T)))} {keys : List String}

def collectKey (torch : Torch T) (shards : List (Option (Dict (Value T)))) (key : String) :
    Py (Collected T) :=
  (carryForward none (popped shards key)).foldlM (addCarried torch) .start

/-- Rank 0 has the key, so what `tensor` holds from the key before does not matter. -/
theorem keyLoop_eq (torch : Torch T) {key : String} {value : Value T}
    (head : (popped shards key).head? = some (some value)) (tensor : Option (Value T)) :
    ((popped shards key).foldlM (popStep torch) ⟨tensor, .start⟩).map Loop.collected =
      collectKey torch shards key := by
  rw [popSteps_eq, collectKey]
  cases values : popped shards key with
  | nil => simp [values] at head
  | cons first rest =>
    obtain rfl : first = some value := by simpa [values] using head
    rfl

theorem collectKeys_of_run {tensor tensor' : Option (Value T)}
    {stateDict stateDict' : Dict (Collected T)}
    (heads : ∀ key ∈ keys, ∃ value, (popped shards key).head? = some (some value))
    (run : keys.foldlM (fun s key => do
      let loop ← (popped shards key).foldlM (popStep torch) ⟨s.1, .start⟩
      return (loop.tensor, s.2.set key loop.collected)) (tensor, stateDict) =
        .ok (tensor', stateDict')) :
    (∀ key ∈ keys, ∃ c, collectKey torch shards key = .ok c ∧ stateDict'.get? key = some c) ∧
      ∀ key, key ∉ keys → stateDict'.get? key = stateDict.get? key := by
  induction keys generalizing tensor stateDict with
  | nil =>
    cases run
    simp
  | cons first keys ih =>
    rw [List.foldlM_cons] at run
    obtain ⟨_, step, run⟩ := bind_ok_iff.mp run
    obtain ⟨loop, steps, made⟩ := bind_ok_iff.mp step
    cases made
    obtain ⟨value, head⟩ := heads first List.mem_cons_self
    have here : collectKey torch shards first = .ok loop.collected := by
      rw [← keyLoop_eq torch head tensor, steps]
      rfl
    obtain ⟨later, others⟩ :=
      ih (fun key member => heads key (List.mem_cons_of_mem first member)) run
    constructor
    · intro key member
      by_cases again : key ∈ keys
      · exact later key again
      · obtain rfl : key = first := by
          rcases List.mem_cons.mp member with same | member
          · exact same
          · exact absurd member again
        exact ⟨loop.collected, here, by rw [others key again, Dict.get?_set, if_pos rfl]⟩
    · intro key missing
      rw [List.mem_cons, not_or] at missing
      rw [others key missing.2, Dict.get?_set, if_neg missing.1]

theorem collectKeys_succeeds (torch : Torch T) (tensor : Option (Value T))
    (stateDict : Dict (Collected T))
    (heads : ∀ key ∈ keys, ∃ value, (popped shards key).head? = some (some value))
    (each : ∀ key ∈ keys, ∃ c, collectKey torch shards key = .ok c) :
    ∃ result, keys.foldlM (fun s key => do
      let loop ← (popped shards key).foldlM (popStep torch) ⟨s.1, .start⟩
      return (loop.tensor, s.2.set key loop.collected)) (tensor, stateDict) = .ok result := by
  induction keys generalizing tensor stateDict with
  | nil => exact ⟨_, rfl⟩
  | cons first keys ih =>
    obtain ⟨value, head⟩ := heads first List.mem_cons_self
    obtain ⟨c, here⟩ := each first List.mem_cons_self
    have steps := keyLoop_eq torch head tensor
    rw [here] at steps
    cases run : (popped shards first).foldlM (popStep torch) ⟨tensor, .start⟩ with
    | error e =>
      rw [run] at steps
      cases steps
    | ok loop =>
      rw [List.foldlM_cons, run]
      exact ih _ _ (fun key member => heads key (List.mem_cons_of_mem first member))
        (fun key member => each key (List.mem_cons_of_mem first member))

end Keys

section Merge

variable {torch : Torch T} {dir : CheckpointDir T} {pool : PoolOrder} {opened : Opened T}

theorem popped_loadShards (opening : openDir dir = .ok opened) (pool : PoolOrder) (key : String) :
    popped (loadShards dir opened pool) key = held dir opened key := by
  rw [popped, loadShards_eq opening pool, List.map_map]
  rfl

theorem head_held (opening : openDir dir = .ok opened) {key : String}
    (member : key ∈ opened.stateDict.keys) :
    ∃ value, (held dir opened key).head? = some (some value) := by
  obtain ⟨value, found⟩ := Option.isSome_iff_exists.mp (Dict.contains_iff.mpr member)
  refine ⟨value, ?_⟩
  obtain ⟨rest, shards⟩ := Nat.exists_eq_succ_of_ne_zero (Nat.pos_iff_ne_zero.mp opened.positive)
  simp only [held, shards, Nat.succ_eq_add_one, List.range_succ_eq_map, List.map_cons,
    List.head?_cons, load_zero opening, Except.toOption, Option.bind_some, found]

theorem merge_ok {written : Dict T} (run : merge torch dir pool = .ok written) :
    ∃ opened, openDir dir = .ok opened ∧
    Passes torch dir opened ∧ ∀ key ∈ opened.stateDict.keys, ∃ c out,
      (carryForward none (held dir opened key)).foldlM (addCarried torch) .start = .ok c ∧
        mergeEntry torch key c = .ok out ∧
      written.get? key = some out := by
  obtain ⟨opened, opening, run⟩ := bind_ok_iff.mp run
  obtain ⟨⟨tensor, stateDict⟩, loops, run⟩ := bind_ok_iff.mp run
  obtain ⟨_, merged, run⟩ := bind_ok_iff.mp run
  obtain ⟨_, model, same⟩ := bind_ok_iff.mp run
  cases same
  have heads : ∀ key ∈ opened.stateDict.keys, ∃ value,
      (popped (loadShards dir opened pool) key).head? = some (some value) := by
    intro key member
    rw [popped_loadShards opening]
    exact head_held opening member
  have each : ∀ key ∈ opened.stateDict.keys, ∃ c out,
      (carryForward none (held dir opened key)).foldlM (addCarried torch) .start = .ok c ∧
      mergeEntry torch key c = .ok out ∧
      written.get? key = some out := by
    intro key member
    obtain ⟨c, collect, found⟩ := (collectKeys_of_run heads loops).1 key member
    obtain ⟨out, entry, there⟩ := Dict.get?_of_mapKVM merged found
    rw [collectKey, popped_loadShards opening] at collect
    exact ⟨c, out, collect, entry, there⟩
  refine ⟨opened, opening, ⟨?_, model⟩, each⟩
  intro key member
  obtain ⟨c, out, collect, entry, -⟩ := each key member
  exact (acceptable_iff key).mpr ⟨c, collect, out, entry⟩

theorem merge_of_passes (opening : openDir dir = .ok opened) (passes : Passes torch dir opened) :
    ∃ written, merge torch dir pool = .ok written := by
  have heads : ∀ key ∈ opened.stateDict.keys, ∃ value,
      (popped (loadShards dir opened pool) key).head? = some (some value) := by
    intro key member
    rw [popped_loadShards opening]
    exact head_held opening member
  have collects : ∀ key ∈ opened.stateDict.keys, ∃ c,
    collectKey torch (loadShards dir opened pool) key = .ok c ∧
      ∃ out, mergeEntry torch key c = .ok out := by
    intro key member
    rw [collectKey, popped_loadShards opening]
    exact (acceptable_iff key).mp (passes.keys key member)
  obtain ⟨⟨tensor, stateDict⟩, loops⟩ := collectKeys_succeeds torch none .empty heads
    (fun key member => (collects key member).imp (fun _ found => found.1))
  obtain ⟨found, others⟩ := collectKeys_of_run heads loops
  obtain ⟨written, merged⟩ : ∃ written, stateDict.mapKVM (mergeEntry torch) = .ok written := by
    rw [Dict.mapKVM_succeeds_iff]
    intro e inside
    have there := Dict.get?_of_mem inside
    have member : e.1 ∈ opened.stateDict.keys := by
      by_contra missing
      rw [others e.1 missing] at there
      cases there
    obtain ⟨c, collect, here⟩ := found e.1 member
    obtain ⟨c', collect', out, merged⟩ := collects e.1 member
    cases collect.symm.trans collect'
    cases here.symm.trans there
    exact ⟨out, merged⟩
  refine ⟨written, ?_⟩
  have collected : collectKeys torch (loadShards dir opened pool) opened.stateDict.keys =
    .ok (tensor, stateDict) := loops
  rw [merge, opening, ok_bind, collected, ok_bind]
  simp only [merged, ok_bind, passes.model, pure_eq_ok]

theorem carryForward_of_present {α : Type} {values : List α} (carried : Option α) :
    carryForward carried (values.map some) = values.map some := by
  induction values generalizing carried with
  | nil => rfl
  | cons value values ih => rw [List.map_cons, carryForward, Option.some_or, ih]

theorem HasShard.eq {key : String} {rank : Nat} {a b : DTensor T}
    (first : HasShard dir opened key rank a) (second : HasShard dir opened key rank b) : a = b := by
  obtain ⟨stateDict, loaded, found⟩ := first
  obtain ⟨stateDict', loaded', found'⟩ := second
  cases loaded.symm.trans loaded'
  cases found.symm.trans found'
  rfl

theorem held_of_hasShard {key : String} {shards : List (DTensor T)}
    (length : shards.length = opened.totalShards)
    (each : ∀ rank (inside : rank < shards.length), HasShard dir opened key rank shards[rank]) :
    held dir opened key = (shards.map Value.dtensor).map some := by
  apply List.ext_getElem
  · simp [held, length]
  · intro rank _ inside
    rw [List.length_map, List.length_map] at inside
    obtain ⟨stateDict, loaded, found⟩ := each rank inside
    simp [held, loaded, Except.toOption, found]

theorem exists_shards (complete : Complete dir opened) {key : String}
    (sharded : Sharded dir opened key) :
    ∃ shards : List (DTensor T), shards.length = opened.totalShards ∧
      ∀ rank (inside : rank < shards.length), HasShard dir opened key rank shards[rank] := by
  choose tensor has using complete key sharded
  refine ⟨List.ofFn (fun rank : Fin opened.totalShards => tensor rank rank.isLt),
    List.length_ofFn, ?_⟩
  intro rank inside
  rw [List.length_ofFn] at inside
  rw [List.getElem_ofFn]
  exact has rank inside

theorem eq_of_dtensors {shards shards' : List (DTensor T)} {plain : List T}
    (same : (shards.map Value.dtensor).map some =
      (shards'.map Value.dtensor ++ plain.map Value.tensor).map some) :
    plain = [] ∧ shards' = shards := by
  have values := List.map_injective_iff.mpr (fun _ _ equal => Option.some.inj equal) same
  have none : plain = [] := by
    rw [List.eq_nil_iff_forall_not_mem]
    intro tensor member
    have inside : Value.tensor tensor ∈ shards.map Value.dtensor := by
      rw [values]
      exact List.mem_append_right _ (List.mem_map_of_mem member)
    obtain ⟨_, _, impossible⟩ := List.mem_map.mp inside
    cases impossible
  rw [none, List.map_nil, List.append_nil] at values
  have injective : Function.Injective (Value.dtensor : DTensor T → Value T) := by
    intro a b equal
    cases equal
    rfl
  exact ⟨none, (List.map_injective_iff.mpr injective values).symm⟩

/-- When no shard is missing, the entries are the concatenations. -/
theorem concatenated_of_complete (opening : openDir dir = .ok opened)
    (complete : Complete dir opened) {written : Dict T}
    (each : ∀ key ∈ opened.stateDict.keys, ∃ c out,
      (carryForward none (held dir opened key)).foldlM (addCarried torch) .start = .ok c ∧
      mergeEntry torch key c = .ok out ∧ written.get? key = some out) :
      Concatenated torch dir opened written := by
  intro key sharded
  obtain ⟨shards, length, has⟩ := exists_shards complete sharded
  have member : key ∈ opened.stateDict.keys := by
    obtain ⟨stateDict, loaded, found⟩ := has 0 (length ▸ opened.positive)
    cases loaded.symm.trans (load_zero opening)
    exact Dict.contains_iff.mp (by rw [Dict.contains, found]; rfl)
  obtain ⟨c, out, collect, entry, there⟩ := each key member
  rw [held_of_hasShard length has, carryForward_of_present] at collect
  obtain ⟨shards', plain, same, agree, rfl⟩ := collect_ok_iff.mp collect
  obtain ⟨rfl, rfl⟩ := eq_of_dtensors same
  rcases (mergeEntry_collected key out).mp entry with ⟨_, impossible, -⟩ | ⟨-,
    placement, head, merged⟩
  · cases impossible
  · obtain ⟨first, isFirst, single⟩ := Option.map_eq_some_iff.mp head
    have placements : ∀ tensor ∈ shards', tensor.placements = [placement] :=
      fun tensor inside => (agree tensor inside first (List.mem_of_head? isFirst)).trans single
    obtain ⟨rank, below, tensor, dim, here, shard⟩ := sharded
    have inside : rank < shards'.length := length ▸ below
    obtain rfl := here.eq (has rank inside)
    rw [placements _ (List.getElem_mem inside), List.mem_singleton] at shard
    subst shard
    exact ⟨shards', length, has, dim, out, placements, merged, there⟩

/-- The script is safe exactly on the directories in which no shard is missing, or something else
makes it fail: a gap alone does not. -/
theorem mergesSafely_iff (torch : Torch T) (dir : CheckpointDir T) (pool : PoolOrder) :
    MergesSafely torch dir pool ↔ ∀ opened, openDir dir = .ok opened → Passes torch dir opened →
      Complete dir opened := by
  constructor
  · intro safe opened opening passes
    obtain ⟨written, run⟩ : ∃ written, merge torch dir pool = .ok written :=
      merge_of_passes opening passes
    obtain ⟨opened', opening', concatenated⟩ := safe written run
    cases opening.symm.trans opening'
    intro key sharded rank below
    obtain ⟨shards, length, has, -⟩ := concatenated key sharded
    have inside : rank < shards.length := length ▸ below
    exact ⟨shards[rank], has rank inside⟩
  · intro complete written run
    obtain ⟨opened, opening, passes, each⟩ := merge_ok run
    exact ⟨opened, opening, concatenated_of_complete opening (complete opened opening passes) each⟩

end Merge

section LostShard

def rowTorch : Torch (List Nat) := ⟨id, fun tensors _ => .ok tensors.flatten⟩

def rowShard (values : List Nat) : DTensor (List Nat) :=
  ⟨values, [.shard 0], ⟨[2], some ["fsdp"], by simp⟩⟩

/-- Two shards of the parameter `w`, of which the second is lost. -/
def lostShard : CheckpointDir (List Nat) where
  localDir := "actor".toList
  listdir := ["model_world_size_2_rank_0.pt".toList]
  load := fun name =>
    if name = "model_world_size_2_rank_0.pt".toList then
      .ok ⟨[("w", .dtensor (rowShard [1, 2]))], by simp⟩
    else .error .fileNotFound
  architectures := .ok ["LlamaForCausalLM".toList]
  fromConfig := fun _ => .ok ()

def inOrder : PoolOrder := ⟨fun totalShards => List.range' 1 (totalShards - 1), fun _ => .refl _⟩

theorem openDir_lostShard :
    openDir lostShard = .ok ⟨['2'], ⟨[("w", .dtensor (rowShard [1, 2]))], by simp⟩, 2,
      Nat.two_pos⟩ := by
  have sorted : ["w"].mergeSort (fun a b => a ≤ b) = ["w"] := List.mergeSort_singleton _
  have found : lostShard.listdir.findSome? matchRankZero = some ['2'] := by decide
  have loaded : lostShard.load (shardName ['2'] 0) =
    .ok ⟨[("w", .dtensor (rowShard [1, 2]))], by simp⟩ := rfl
  have name : (!"huggingface".toList.isSuffixOf lostShard.localDir) = true := by decide
  rw [openDir, name, found]
  simp only [pyAssert_true, ok_bind, loaded, Dict.keys, List.map_cons, List.map_nil, sorted]
  rfl

theorem loadShards_lostShard : loadShards lostShard
    ⟨['2'], ⟨[("w", .dtensor (rowShard [1, 2]))], by simp⟩, 2, Nat.two_pos⟩ inOrder =
    [some ⟨[("w", .dtensor (rowShard [1, 2]))], by simp⟩, none] := by
  have different : shardName ['2'] 1 ≠ "model_world_size_2_rank_0.pt".toList := by decide
  have lost : lostShard.load (shardName ['2'] 1) = .error .fileNotFound := by
    simp only [lostShard, if_neg different]
  rw [loadShards_eq openDir_lostShard]
  simp only [List.range_succ, List.range_zero, List.nil_append, List.map_append, List.map_cons,
    List.map_nil, lost, load_zero openDir_lostShard]
  rfl

theorem buildModel_lostShard : buildModel lostShard = .ok () := by
  have token : ¬"ForTokenClassification".toList <:+: "LlamaForCausalLM".toList :=
    fun inside => absurd inside.length_le (by decide)
  have causal : "ForCausalLM".toList <:+: "LlamaForCausalLM".toList := ⟨"Llama".toList, [], rfl⟩
  simp only [buildModel, lostShard, ok_bind, autoModel, pyGet, List.getElem?_cons_zero,
    if_neg token, if_pos causal, pure_eq_ok]

/-- The half of rank 0 is written twice. -/
theorem lostShard_doubled :
    (∃ written, merge rowTorch lostShard inOrder = .ok written ∧
    written.get? "w" = some [1, 2, 1, 2]) ∧ ¬MergesSafely rowTorch lostShard inOrder := by
  have run : ∃ written, merge rowTorch lostShard inOrder = .ok written ∧
      written.get? "w" = some [1, 2, 1, 2] := by
    rw [merge, openDir_lostShard, ok_bind, loadShards_lostShard, buildModel_lostShard]
    exact ⟨⟨[("w", [1, 2, 1, 2])], by simp⟩, rfl, rfl⟩
  refine ⟨run, ?_⟩
  intro safe
  obtain ⟨written, run, -⟩ := run
  obtain ⟨opened, opening, concatenated⟩ := safe written run
  cases openDir_lostShard.symm.trans opening
  obtain ⟨shards, length, has, -⟩ :=
    concatenated "w" ⟨0, Nat.two_pos, rowShard [1, 2], 0, ⟨_, rfl, rfl⟩, List.mem_cons_self⟩
  obtain ⟨stateDict, loaded, -⟩ := has 1 (length ▸ Nat.one_lt_two)
  have different : shardName ['2'] 1 ≠ "model_world_size_2_rank_0.pt".toList := by decide
  simp only [lostShard, if_neg different] at loaded
  cases loaded

end LostShard

end Verl.Checkpoint.ModelMerger
