import Verl.Base.Effects
import Verl.Protocol.Invariant

/-! `DataProto.pop` and `DataProto.union` as the methods that they are: both change the batch, the
object columns and `meta_info` of the object key by key, and check each key when they come to it. -/
namespace Verl.Protocol

variable {τ ω μ : Type}

def TensorDict.erase (td : TensorDict τ) (key : String) : TensorDict τ where
  batchSize := td.batchSize
  tensors := td.tensors.erase key
  aligned e member := td.aligned e (Dict.mem_erase.mp member).1

namespace DataProto

def tensors (d : DataProto τ ω μ) : Dict (Column τ) :=
  match d.batch with
  | some batch => batch.tensors
  | none => .empty

section Pop

def delTensor (key : String) (d : DataProto τ ω μ) : DataProto τ ω μ :=
  { d with batch := d.batch.map (fun batch => batch.erase key) }

def delColumn (key : String) (d : DataProto τ ω μ) : DataProto τ ω μ :=
  { d with nonTensorBatch := d.nonTensorBatch.erase key }

def delInfo (key : String) (d : DataProto τ ω μ) : DataProto τ ω μ :=
  { d with metaInfo := d.metaInfo.erase key }

def missingTensor (d : DataProto τ ω μ) (_key : String) : PyError :=
  match d.batch with
  | some _ => .assertion ""
  | none => .attribute "keys"

def missingKey (_d : DataProto τ ω μ) (_key : String) : PyError := .assertion ""

def pop (batchKeys nonTensorBatchKeys metaInfoKeys : Option (List String)) :
    Effect (DataProto τ ω μ) (DataProto τ ω μ) :=
  match batchKeys with
  | none => .raise (.assertion "")
  | some batchKeys => do
    let tensors ← Effect.popAll tensors delTensor missingTensor batchKeys
    let nonTensors ← Effect.popAll nonTensorBatch delColumn missingKey (nonTensorBatchKeys.getD [])
    let metaInfo ← Effect.popAll metaInfo delInfo missingKey (metaInfoKeys.getD [])
    Effect.attempt (fromDict tensors nonTensors metaInfo)

theorem tensors_delTensor (key : String) (d : DataProto τ ω μ) :
    (delTensor key d).tensors = d.tensors.erase key := by
  unfold tensors delTensor
  cases d.batch with
  | none => rfl
  | some batch => rfl

theorem nonTensorBatch_delColumn (key : String) (d : DataProto τ ω μ) :
    (delColumn key d).nonTensorBatch = d.nonTensorBatch.erase key := rfl

theorem metaInfo_delInfo (key : String) (d : DataProto τ ω μ) :
    (delInfo key d).metaInfo = d.metaInfo.erase key := rfl

theorem foldl_delTensor (keys : List String) (d : DataProto τ ω μ) :
    (keys.foldl (fun d key => delTensor key d) d).nonTensorBatch = d.nonTensorBatch ∧
    (keys.foldl (fun d key => delTensor key d) d).metaInfo = d.metaInfo := by
  induction keys generalizing d with
  | nil => exact ⟨rfl, rfl⟩
  | cons key keys ih => exact ih (delTensor key d)

theorem foldl_delColumn (keys : List String) (d : DataProto τ ω μ) :
    (keys.foldl (fun d key => delColumn key d) d).batch = d.batch ∧
    (keys.foldl (fun d key => delColumn key d) d).metaInfo = d.metaInfo := by
  induction keys generalizing d with
  | nil => exact ⟨rfl, rfl⟩
  | cons key keys ih => exact ih (delColumn key d)

theorem foldl_delInfo (keys : List String) (d : DataProto τ ω μ) :
    (keys.foldl (fun d key => delInfo key d) d).batch = d.batch ∧
    (keys.foldl (fun d key => delInfo key d) d).nonTensorBatch = d.nonTensorBatch := by
  induction keys generalizing d with
  | nil => exact ⟨rfl, rfl⟩
  | cons key keys ih => exact ih (delInfo key d)

def without (bs cs ms : List String) (d : DataProto τ ω μ) : DataProto τ ω μ :=
  ms.foldl (fun d key => delInfo key d)
    (cs.foldl (fun d key => delColumn key d) (bs.foldl (fun d key => delTensor key d) d))

variable {d : DataProto τ ω μ} {bs cs ms : List String}

theorem get?_tensors_without (key : String) :
    (without bs cs ms d).tensors.get? key = if key ∈ bs then none else d.tensors.get? key := by
  have frame : (without bs cs ms d).tensors =
      (bs.foldl (fun d key => delTensor key d) d).tensors := by
    unfold tensors without
    rw [(foldl_delInfo ms _).1, (foldl_delColumn cs _).1]
  rw [frame]
  exact Effect.get?_foldl_del tensors_delTensor bs d key

theorem get?_columns_without (key : String) :
    (without bs cs ms d).nonTensorBatch.get? key = if key ∈ cs then none
      else d.nonTensorBatch.get? key := by
  have frame : (without bs cs ms d).nonTensorBatch =
    (cs.foldl (fun d key => delColumn key d)
    (bs.foldl (fun d key => delTensor key d) d)).nonTensorBatch :=
    (foldl_delInfo ms _).2
  rw [frame, Effect.get?_foldl_del nonTensorBatch_delColumn, (foldl_delTensor bs d).1]

theorem get?_info_without (key : String) :
    (without bs cs ms d).metaInfo.get? key = if key ∈ ms then none else d.metaInfo.get? key := by
  rw [without, Effect.get?_foldl_del metaInfo_delInfo, (foldl_delColumn cs _).2,
    (foldl_delTensor bs d).2]

theorem without_eq_self_iff (tensors : ∀ key ∈ bs, key ∈ d.tensors.keys)
    (columns : ∀ key ∈ cs, key ∈ d.nonTensorBatch.keys)
    (info : ∀ key ∈ ms, key ∈ d.metaInfo.keys) : without bs cs ms d = d ↔
      bs = [] ∧ cs = [] ∧ ms = [] := by
  constructor
  · intro same
    have lost : ∀ {β : Type} {c : Dict β} {keys : List String}, (∀ key ∈ keys, key ∈ c.keys) →
        (∀ key ∈ keys, c.get? key = none) → keys = [] := by
      intro β c keys there gone
      rw [List.eq_nil_iff_forall_not_mem]
      intro key member
      exact Dict.get?_eq_none_iff.mp (gone key member) (there key member)
    refine ⟨lost tensors ?_, lost columns ?_, lost info ?_⟩
    · intro key member
      have gone : (without bs cs ms d).tensors.get? key = none := by
        rw [get?_tensors_without, if_pos member]
      rwa [same] at gone
    · intro key member
      have gone : (without bs cs ms d).nonTensorBatch.get? key = none := by
        rw [get?_columns_without, if_pos member]
      rwa [same] at gone
    · intro key member
      have gone : (without bs cs ms d).metaInfo.get? key = none := by
        rw [get?_info_without, if_pos member]
      rwa [same] at gone
  · rintro ⟨rfl, rfl, rfl⟩
    rfl

/-- Every key is there, asked for once, and a tensor is among them. -/
structure Poppable (d : DataProto τ ω μ) (bs cs ms : List String) : Prop where
  some : bs ≠ []
  tensors : bs.Nodup ∧ ∀ key ∈ bs, key ∈ d.tensors.keys
  columns : cs.Nodup ∧ ∀ key ∈ cs, key ∈ d.nonTensorBatch.keys
  info : ms.Nodup ∧ ∀ key ∈ ms, key ∈ d.metaInfo.keys

/-- The first key that is asked for is missing, or no key is asked for. -/
def FailsAtOnce (d : DataProto τ ω μ) (bs cs ms : List String) : Prop :=
  match bs, cs, ms with
  | key :: _, _, _ => key ∉ d.tensors.keys
  | [], key :: _, _ => key ∉ d.nonTensorBatch.keys
  | [], [], key :: _ => key ∉ d.metaInfo.keys
  | [], [], [] => True

theorem fromDict_ok {tensors : Dict (Column τ)} {nonTensors : Dict (Column ω)} {metaInfo : Dict μ}
    {n : Nat} (some : tensors.entries ≠ []) (rows : ∀ e ∈ tensors.entries, e.2.rows.length = n)
    (columns : HasRows n nonTensors) :
    fromDict tensors nonTensors metaInfo = .ok ⟨.some ⟨n, tensors, rows⟩, nonTensors,
      metaInfo⟩ := by
  unfold fromDict
  cases entries : tensors.entries with
  | nil => exact absurd entries some
  | cons pivot rest =>
    obtain ⟨pivotKey, column⟩ := pivot
    have size : column.rows.length = n :=
      rows (pivotKey, column) (by rw [entries]; exact List.mem_cons_self)
    simp only [size]
    have checked : rest.forM (fun (entry : String × Column τ) =>
        pyAssert (n == entry.2.rows.length)
          s!"Not all the tensor in tensors have the same batch size with batch_dims=1. Got {pivotKey} has {n}, {entry.1} has {entry.2.rows.length}") =
        .ok ⟨⟩ := by
      apply forM_ok
      intro e member
      simp [rows e (by rw [entries]; exact List.mem_cons_of_mem _ member)]
    rw [checked, ok_bind, TensorDict.new, dif_pos rows, ok_bind]
    exact new_ok ⟨by rintro _ ⟨⟩; rfl, columns⟩

theorem hasRows_of_consistent {td : TensorDict τ} (present : d.batch = .some td)
    (consistent : d.checkConsistency = .ok ⟨⟩) :
    HasRows td.batchSize d.nonTensorBatch := by
  intro e member
  unfold checkConsistency at consistent
  rw [present] at consistent
  have same := of_forM_ok consistent e member
  simpa [pyAssert_ok_iff] using same

theorem keys_popped {β : Type} {c out : Dict β} {keys : List String}
    (there : ∀ key ∈ keys, key ∈ c.keys)
    (values : ∀ key, out.get? key = if key ∈ keys then c.get? key else Dict.empty.get? key)
    (key : String) :
    key ∈ out.keys ↔ key ∈ keys := by
  rw [← Dict.contains_iff, Dict.contains, values]
  by_cases member : key ∈ keys
  · have present := Dict.contains_iff.mpr (there key member)
    simpa [member, Dict.contains] using present
  · simp [member, Dict.get?, Dict.empty]

theorem popTensors_run (d : DataProto τ ω μ) (bs : List String) :
    (∃ out, Effect.popAll tensors delTensor missingTensor bs d = (.ok out, without bs [] [] d) ∧
      (bs.Nodup ∧ ∀ key ∈ bs, key ∈ d.tensors.keys) ∧
      ∀ key, out.get? key = if key ∈ bs then d.tensors.get? key else Dict.empty.get? key) ∨
    (∃ e popped, Effect.popAll tensors delTensor missingTensor bs d =
      (.error e, without popped [] [] d) ∧
      ¬(bs.Nodup ∧ ∀ key ∈ bs, key ∈ d.tensors.keys) ∧ (∀ key ∈ popped, key ∈ d.tensors.keys) ∧
      (popped = [] ↔ ∃ key, bs.head? = .some key ∧ key ∉ d.tensors.keys)) := by
  by_cases good : bs.Nodup ∧ ∀ key ∈ bs, key ∈ d.tensors.keys
  · obtain ⟨out, run, values⟩ := Effect.popInto_ok tensors_delTensor good.1 .empty good.2
    exact .inl ⟨out, run, good, values⟩
  · obtain ⟨e, popped, run, known, first⟩ := Effect.popInto_error tensors_delTensor .empty good
    exact .inr ⟨e, popped, run, good, known, first⟩

theorem popColumns_run (d : DataProto τ ω μ) (bs cs : List String) :
    (∃ out, Effect.popAll nonTensorBatch delColumn missingKey cs (without bs [] [] d) =
      (.ok out, without bs cs [] d) ∧ (cs.Nodup ∧ ∀ key ∈ cs, key ∈ d.nonTensorBatch.keys) ∧
      ∀ key, out.get? key = if key ∈ cs then d.nonTensorBatch.get? key else Dict.empty.get? key) ∨
    (∃ e popped, Effect.popAll nonTensorBatch delColumn missingKey cs (without bs [] [] d) =
      (.error e, without bs popped [] d) ∧
      ¬(cs.Nodup ∧ ∀ key ∈ cs, key ∈ d.nonTensorBatch.keys) ∧
        (∀ key ∈ popped, key ∈ d.nonTensorBatch.keys) ∧
      (popped = [] ↔ ∃ key, cs.head? = .some key ∧ key ∉ d.nonTensorBatch.keys)) := by
  have frame : (without bs [] [] d).nonTensorBatch = d.nonTensorBatch := (foldl_delTensor bs d).1
  rw [← frame]
  by_cases good : cs.Nodup ∧ ∀ key ∈ cs, key ∈ (without bs [] [] d).nonTensorBatch.keys
  · obtain ⟨out, run, values⟩ := Effect.popInto_ok nonTensorBatch_delColumn good.1 .empty good.2
    exact .inl ⟨out, run, good, values⟩
  · obtain ⟨e, popped, run, known, first⟩ :=
      Effect.popInto_error nonTensorBatch_delColumn .empty good
    exact .inr ⟨e, popped, run, good, known, first⟩

theorem popInfo_run (d : DataProto τ ω μ) (bs cs ms : List String) :
    (∃ out, Effect.popAll metaInfo delInfo missingKey ms (without bs cs [] d) =
      (.ok out, without bs cs ms d) ∧ (ms.Nodup ∧ ∀ key ∈ ms, key ∈ d.metaInfo.keys) ∧
      ∀ key, out.get? key = if key ∈ ms then d.metaInfo.get? key else Dict.empty.get? key) ∨
    (∃ e popped, Effect.popAll metaInfo delInfo missingKey ms (without bs cs [] d) =
      (.error e, without bs cs popped d) ∧
      ¬(ms.Nodup ∧ ∀ key ∈ ms, key ∈ d.metaInfo.keys) ∧ (∀ key ∈ popped, key ∈ d.metaInfo.keys) ∧
      (popped = [] ↔ ∃ key, ms.head? = .some key ∧ key ∉ d.metaInfo.keys)) := by
  have frame : (without bs cs [] d).metaInfo = d.metaInfo :=
    (foldl_delColumn cs _).2.trans (foldl_delTensor bs d).2
  rw [← frame]
  by_cases good : ms.Nodup ∧ ∀ key ∈ ms, key ∈ (without bs cs [] d).metaInfo.keys
  · obtain ⟨out, run, values⟩ := Effect.popInto_ok metaInfo_delInfo good.1 .empty good.2
    exact .inl ⟨out, run, good, values⟩
  · obtain ⟨e, popped, run, known, first⟩ := Effect.popInto_error metaInfo_delInfo .empty good
    exact .inr ⟨e, popped, run, good, known, first⟩

theorem mem_of_popped {β : Type} {c out : Dict β} {keys : List String}
    (values : ∀ key, out.get? key = if key ∈ keys then c.get? key else Dict.empty.get? key)
    {e : String × β} (member : e ∈ out.entries) :
    e ∈ c.entries := by
  have found := values e.1
  rw [Dict.get?_of_mem member] at found
  split at found
  · exact Dict.mem_of_get? found.symm
  · cases found

theorem pop_bind {nk mk : Option (List String)} {ts : Dict (Column τ)} {cols : Dict (Column ω)}
    {info : Dict μ}
    (tensorsRun : Effect.popAll tensors delTensor missingTensor bs d = (.ok ts, without bs [] [] d))
    (columnsRun : Effect.popAll nonTensorBatch delColumn missingKey (nk.getD [])
      (without bs [] [] d) = (.ok cols, without bs (nk.getD []) [] d))
    (infoRun : Effect.popAll metaInfo delInfo missingKey (mk.getD [])
      (without bs (nk.getD []) [] d) = (.ok info, without bs (nk.getD []) (mk.getD []) d)) :
    pop (.some bs) nk mk d = (fromDict ts cols info, without bs (nk.getD []) (mk.getD []) d) :=
  (Effect.bind_ok tensorsRun).trans ((Effect.bind_ok columnsRun).trans (Effect.bind_ok infoRun))

/-- A pop that finds all its keys: the object without them, and a batch of them. -/
theorem pop_ok {nk mk : Option (List String)} (poppable : Poppable d bs (nk.getD []) (mk.getD []))
    (consistent : d.checkConsistency = .ok ⟨⟩) :
    ∃ p, pop (.some bs) nk mk d = (.ok p, without bs (nk.getD []) (mk.getD []) d) ∧
      (∀ key, p.tensors.get? key = if key ∈ bs then d.tensors.get? key else none) ∧
      (∀ key, p.nonTensorBatch.get? key = if key ∈ nk.getD [] then
        d.nonTensorBatch.get? key else none) ∧
      (∀ key, p.metaInfo.get? key = if key ∈ mk.getD [] then d.metaInfo.get? key else none) ∧
      p.batch.map TensorDict.batchSize = d.batch.map TensorDict.batchSize := by
  rcases popTensors_run d bs with ⟨ts, tensorsRun, -, tensorValues⟩ | ⟨-, -, -, bad, -⟩
  · rcases popColumns_run d bs (nk.getD []) with ⟨cols, columnsRun, -,
      columnValues⟩ | ⟨-, -, -, bad, -⟩
    · rcases popInfo_run d bs (nk.getD []) (mk.getD []) with ⟨info, infoRun, -,
        infoValues⟩ | ⟨-, -, -, bad, -⟩
      · obtain ⟨key, member⟩ := List.exists_mem_of_ne_nil bs poppable.some
        have there := poppable.tensors.2 key member
        cases batch : d.batch with
        | none =>
          rw [tensors, batch] at there
          cases there
        | some td =>
          have own : d.tensors = td.tensors := by rw [tensors, batch]
          have some : ts.entries ≠ [] := by
            intro empty
            have present := (keys_popped poppable.tensors.2 tensorValues key).mpr member
            rw [Dict.keys, empty] at present
            cases present
          have rows : ∀ e ∈ ts.entries, e.2.rows.length = td.batchSize := by
            intro e inside
            have source := mem_of_popped tensorValues inside
            rw [own] at source
            exact td.aligned e source
          have columns : HasRows td.batchSize cols :=
            fun e inside => hasRows_of_consistent batch consistent e
              (mem_of_popped columnValues inside)
          have run := pop_bind tensorsRun columnsRun infoRun
          rw [fromDict_ok some rows columns] at run
          exact ⟨_, run, tensorValues, columnValues, infoValues, rfl⟩
      · exact absurd poppable.info bad
    · exact absurd poppable.columns bad
  · exact absurd poppable.tensors bad

theorem atomic_of_error {α : Type} {x : Effect (DataProto τ ω μ) α} {e : PyError}
    {s : DataProto τ ω μ} (run : x d = (.error e, s)) :
    x.Atomic d ↔ s = d := by
  constructor
  · intro atomic
    exact atomic e s run
  · intro same e' s' failed
    rw [run] at failed
    cases failed
    exact same

theorem head?_missing_iff {keys : List String} {names : List String}
    (bad : ¬(keys.Nodup ∧ ∀ key ∈ keys, key ∈ names)) :
    ∃ key rest, keys = key :: rest ∧
      ((∃ key, keys.head? = .some key ∧ key ∉ names) ↔ key ∉ names) := by
  cases keys with
  | nil => exact absurd ⟨List.nodup_nil, by simp⟩ bad
  | cons key rest => exact ⟨key, rest, rfl, by simp⟩

/-- A pop that raises has changed the object unless it raised before its first key was gone. -/
theorem pop_atomic_iff (nk mk : Option (List String)) (consistent : d.checkConsistency = .ok ⟨⟩) :
    (pop (.some bs) nk mk).Atomic d ↔ Poppable d bs (nk.getD []) (mk.getD []) ∨
      FailsAtOnce d bs (nk.getD []) (mk.getD []) := by
  by_cases poppable : Poppable d bs (nk.getD []) (mk.getD [])
  · obtain ⟨p, run, -⟩ := pop_ok poppable consistent
    simp only [poppable, true_or, iff_true]
    intro e s' failed
    rw [run] at failed
    cases failed
  simp only [poppable, false_or]
  rcases popTensors_run d bs with ⟨ts, tensorsRun, tensorsGood, -⟩ | ⟨e, popped, run,
    bad, known, first⟩
  · rcases popColumns_run d bs (nk.getD []) with ⟨cols, columnsRun, columnsGood, -⟩ | ⟨e, popped,
      run, bad, known, first⟩
    · rcases popInfo_run d bs (nk.getD []) (mk.getD []) with ⟨info, infoRun, infoGood, -⟩ | ⟨e,
        popped, run, bad, known, first⟩
      · have none : bs = [] := by
          by_contra some
          exact poppable ⟨some, tensorsGood, columnsGood, infoGood⟩
        subst none
        have empty : Effect.popAll tensors delTensor missingTensor [] d =
          (.ok .empty, without [] [] [] d) := rfl
        have failed : pop (.some []) nk mk d = (.error (.assertion "tensors must not be empty"),
          without [] (nk.getD []) (mk.getD []) d) :=
          pop_bind empty columnsRun infoRun
        rw [atomic_of_error failed, without_eq_self_iff (by simp) columnsGood.2 infoGood.2]
        cases columns : nk.getD [] with
        | nil =>
          cases info : mk.getD [] with
          | nil => simp [FailsAtOnce]
          | cons key rest =>
            simpa [FailsAtOnce] using infoGood.2 key (by rw [info]; exact List.mem_cons_self)
        | cons key rest =>
          simpa [FailsAtOnce] using columnsGood.2 key (by rw [columns]; exact List.mem_cons_self)
      · have failed : pop (.some bs) nk mk d = (.error e, without bs (nk.getD []) popped d) :=
          (Effect.bind_ok tensorsRun).trans
            ((Effect.bind_ok columnsRun).trans (Effect.bind_error run))
        rw [atomic_of_error failed, without_eq_self_iff tensorsGood.2 columnsGood.2 known, first]
        obtain ⟨asked, others, info, missing⟩ := head?_missing_iff bad
        rw [missing]
        cases bs with
        | nil =>
          cases columns : nk.getD [] with
          | nil => simp [FailsAtOnce, info]
          | cons key rest =>
            simpa [FailsAtOnce] using columnsGood.2 key (by rw [columns]; exact List.mem_cons_self)
        | cons key rest => simpa [FailsAtOnce] using tensorsGood.2 key List.mem_cons_self
    · have failed : pop (.some bs) nk mk d = (.error e, without bs popped [] d) :=
        (Effect.bind_ok tensorsRun).trans (Effect.bind_error run)
      rw [atomic_of_error failed, without_eq_self_iff tensorsGood.2 known (by simp), first]
      obtain ⟨asked, others, columns, missing⟩ := head?_missing_iff bad
      rw [missing]
      cases bs with
      | nil => simp [FailsAtOnce, columns]
      | cons key rest => simpa [FailsAtOnce] using tensorsGood.2 key List.mem_cons_self
  · have failed : pop (.some bs) nk mk d = (.error e, without popped [] [] d) :=
      Effect.bind_error run
    rw [atomic_of_error failed, without_eq_self_iff known (by simp) (by simp), first]
    obtain ⟨asked, others, rfl, -⟩ := head?_missing_iff bad
    simp [FailsAtOnce]

end Pop

inductive Entry (τ ω μ : Type) where
  | tensor (key : String) (tensor : Column τ)
  | column (key : String) (val : Column ω)
  | info (key : String) (val : μ)

/-- `equal` of two tensors, `pd.DataFrame.equals` and `==`, each of which may raise. -/
structure Comparisons (τ ω μ : Type) where
  equal : Column τ → Column τ → Py Bool
  equals : Column ω → Column ω → Py Bool
  eq : μ → μ → Py Bool

section Union

variable (cmp : Comparisons τ ω μ)

def assertSame {β : Type} (same : β → β → Py Bool) (own : Option β) (val : β) (message : String) :
    Py Unit :=
  match own with
  | none => .ok ()
  | some own => do
    let same ← same own val
    pyAssert same message

def checkEntry (self : DataProto τ ω μ) : Entry τ ω μ → Py Unit
  | .tensor key tensor =>
    match self.batch with
    | none => .error (.attribute "keys")
    | some batch =>
      match batch.tensors.get? key with
      | none => do
        let _ ← batch.setItem key tensor
        return ()
      | some own =>
        assertSame cmp.equal (some own) tensor
        s!"{key} in tensor_dict1 and tensor_dict2 are not the same object"
  | .column key val =>
    assertSame (fun own val => cmp.equals val own) (self.nonTensorBatch.get? key) val
      s!"{key} in tensor_dict1 and tensor_dict2 are not the same object"
  | .info key val =>
    assertSame (fun own val => cmp.eq val own) (self.metaInfo.get? key) val
      s!"{key} in meta_dict1 and meta_dict2 are not the same object"

/-- A tensor is taken under a new key only, an object column and an information always. -/
def writeEntry (self : DataProto τ ω μ) : Entry τ ω μ → DataProto τ ω μ
  | .tensor key tensor =>
    match self.batch with
    | none => self
    | some batch =>
      match batch.tensors.get? key, batch.setItem key tensor with
      | none, .ok batch => { self with batch := some batch }
      | _, _ => self
  | .column key val => { self with nonTensorBatch := self.nonTensorBatch.set key val }
  | .info key val => { self with metaInfo := self.metaInfo.set key val }

def unionEntry : Entry τ ω μ → Effect (DataProto τ ω μ) Unit :=
  Effect.store (checkEntry cmp) writeEntry

def assertSizes (size1 size2 : Nat) : Py Unit :=
  pyAssert (size1 == size2)
    s!"Two tensor dict must have identical batch size. Got {size1} and {size2}"

/-- The loops of `union_tensor_dict`, `union_numpy_dict` and `union_two_dict`. -/
def unionTensors (tensorDict2 : Dict (Column τ)) : Effect (DataProto τ ω μ) Unit :=
  tensorDict2.entries.forM (fun (key, tensor) => unionEntry cmp (.tensor key tensor))

def unionColumns (tensorDict2 : Dict (Column ω)) : Effect (DataProto τ ω μ) Unit :=
  tensorDict2.entries.forM (fun (key, val) => unionEntry cmp (.column key val))

def unionInfo (dict2 : Dict μ) : Effect (DataProto τ ω μ) Unit :=
  dict2.entries.forM (fun (key, val) => unionEntry cmp (.info key val))

def union (other : DataProto τ ω μ) : Effect (DataProto τ ω μ) Unit := fun self =>
  match self.batch, other.batch with
  | some batch, some otherBatch =>
    let run : Effect (DataProto τ ω μ) Unit := do
      Effect.attempt (assertSizes batch.batchSize otherBatch.batchSize)
      unionTensors cmp otherBatch.tensors
      unionColumns cmp other.nonTensorBatch
      unionInfo cmp other.metaInfo
    run self
  | _, _ => (.error (.attribute "batch_size"), self)

def entries (d : DataProto τ ω μ) : List (Entry τ ω μ) :=
  d.tensors.entries.map (fun e => .tensor e.1 e.2) ++
    (d.nonTensorBatch.entries.map (fun e => .column e.1 e.2) ++ d.metaInfo.entries.map (fun e =>
      .info e.1 e.2))

def Holds (d : DataProto τ ω μ) : Entry τ ω μ → Prop
  | .tensor key _ => key ∈ d.tensors.keys
  | .column key val => d.nonTensorBatch.get? key = some val
  | .info key val => d.metaInfo.get? key = some val

def Apart : Entry τ ω μ → Entry τ ω μ → Prop
  | .tensor key _, .tensor other _ => key ≠ other
  | .column key _, .column other _ => key ≠ other
  | .info key _, .info other _ => key ≠ other
  | _, _ => True

theorem Apart.symm {v w : Entry τ ω μ} (apart : Apart v w) : Apart w v := by
  cases v with
  | tensor key tensor =>
    cases w with
    | tensor other _ => exact Ne.symm apart
    | column other _ => trivial
    | info other _ => trivial
  | column key val =>
    cases w with
    | tensor other _ => trivial
    | column other _ => exact Ne.symm apart
    | info other _ => trivial
  | info key val =>
    cases w with
    | tensor other _ => trivial
    | column other _ => trivial
    | info other _ => exact Ne.symm apart

theorem entries_apart (d : DataProto τ ω μ) : d.entries.Pairwise Apart := by
  have distinct : ∀ {β : Type} (c : Dict β), c.entries.Pairwise (fun a b => a.1 ≠ b.1) :=
    fun c => List.pairwise_map.mp c.distinct
  unfold entries
  rw [List.pairwise_append, List.pairwise_append, List.pairwise_map, List.pairwise_map,
    List.pairwise_map]
  refine ⟨distinct d.tensors, ⟨distinct d.nonTensorBatch, distinct d.metaInfo, ?_⟩, ?_⟩
  · intro v first w second
    obtain ⟨_, -, rfl⟩ := List.mem_map.mp first
    obtain ⟨_, -, rfl⟩ := List.mem_map.mp second
    trivial
  · intro v first w second
    obtain ⟨_, -, rfl⟩ := List.mem_map.mp first
    rcases List.mem_append.mp second with column | info
    · obtain ⟨_, -, rfl⟩ := List.mem_map.mp column
      trivial
    · obtain ⟨_, -, rfl⟩ := List.mem_map.mp info
      trivial

theorem isOk_assertSame {β : Type} {same : β → β → Py Bool} {own : Option β} {val : β}
    {message : String} :
    (assertSame same own val message).isOk = true ↔ ∀ o, own = some o → same o val = .ok true := by
  cases own with
  | none => simp [assertSame, Except.isOk, Except.toBool]
  | some own =>
    simp only [assertSame, Option.some.injEq, forall_eq']
    cases same own val with
    | error e => simp [error_bind, Except.isOk, Except.toBool]
    | ok b => cases b <;> simp [ok_bind, pyAssert, Except.isOk, Except.toBool]

variable {cmp} {d d' : DataProto τ ω μ} {key : String}

theorem passes_tensor_iff {tensor : Column τ} :
    Effect.Passes (checkEntry cmp) d (.tensor key tensor) = true ↔
    ∃ size, d.batch.map TensorDict.batchSize = some size ∧
      (d.tensors.get? key = none → tensor.rows.length = size) ∧
      ∀ own, d.tensors.get? key = some own → cmp.equal own tensor = .ok true := by
  unfold Effect.Passes checkEntry tensors
  cases present : d.batch with
  | none => simp [Except.isOk, Except.toBool]
  | some batch =>
    simp only [Option.map_some, Option.some.injEq, exists_eq_left']
    cases found : batch.tensors.get? key with
    | none =>
      unfold TensorDict.setItem
      by_cases fits : tensor.rows.length = batch.batchSize
      · simp [fits, ok_bind, Except.isOk, Except.toBool]
      · simp [fits, error_bind, Except.isOk, Except.toBool]
    | some own =>
      rw [isOk_assertSame]
      simp

theorem passes_column_iff {val : Column ω} :
    Effect.Passes (checkEntry cmp) d (.column key val) = true ↔
    ∀ own, d.nonTensorBatch.get? key = some own → cmp.equals val own = .ok true := by
  unfold Effect.Passes checkEntry
  exact isOk_assertSame

theorem passes_info_iff {val : μ} : Effect.Passes (checkEntry cmp) d (.info key val) = true ↔
    ∀ own, d.metaInfo.get? key = some own → cmp.eq val own = .ok true := by
  unfold Effect.Passes checkEntry
  exact isOk_assertSame

theorem read_writeEntry_tensor {tensor : Column τ}
    (pass : Effect.Passes (checkEntry cmp) d (.tensor key tensor) = true) :
    (∀ other, (writeEntry d (.tensor key tensor)).tensors.get? other =
      (d.tensors.get? other).or (if other = key then some tensor else none)) ∧
    (writeEntry d (.tensor key tensor)).batch.map TensorDict.batchSize =
      d.batch.map TensorDict.batchSize ∧
    (writeEntry d (.tensor key tensor)).nonTensorBatch = d.nonTensorBatch ∧
      (writeEntry d (.tensor key tensor)).metaInfo = d.metaInfo := by
  obtain ⟨size, sized, fits, -⟩ := passes_tensor_iff.mp pass
  obtain ⟨batch, present, rfl⟩ := Option.map_eq_some_iff.mp sized
  have before : d.tensors = batch.tensors := by rw [tensors, present]
  rw [before] at fits ⊢
  cases found : batch.tensors.get? key with
  | some own =>
    have same : writeEntry d (.tensor key tensor) = d := by simp only [writeEntry, present, found]
    rw [same, before]
    refine ⟨?_, rfl, rfl, rfl⟩
    intro other
    by_cases here : other = key
    · simp [here, found]
    · simp [here]
  | none =>
    have added : ∃ grown, batch.setItem key tensor = .ok grown ∧ grown.batchSize = batch.batchSize ∧
        grown.tensors = batch.tensors.set key tensor := by
      unfold TensorDict.setItem
      rw [dif_pos (fits found)]
      exact ⟨_, rfl, rfl, rfl⟩
    obtain ⟨grown, run, size, after⟩ := added
    have write : writeEntry d (.tensor key tensor) = { d with batch := some grown } := by
      simp only [writeEntry, present, found, run]
    rw [write, present]
    refine ⟨?_, congrArg some size, rfl, rfl⟩
    intro other
    change grown.tensors.get? other = _
    rw [after, Dict.get?_set]
    by_cases here : other = key
    · simp [here, found]
    · simp [here]

theorem mem_keys_iff {β : Type} {c : Dict β} : key ∈ c.keys ↔ (c.get? key).isSome = true :=
  Dict.contains_iff.symm

theorem passes_writeEntry {v w : Entry τ ω μ} (apart : Apart v w)
    (pass : Effect.Passes (checkEntry cmp) d v = true) :
    Effect.Passes (checkEntry cmp) (writeEntry d v) w = Effect.Passes (checkEntry cmp) d w := by
  rw [Bool.eq_iff_iff]
  cases v with
  | tensor key tensor =>
    obtain ⟨values, size, columns, info⟩ := read_writeEntry_tensor pass
    cases w with
    | tensor other value =>
      rw [passes_tensor_iff, passes_tensor_iff, size, values, if_neg (Ne.symm apart),
      Option.or_none]
    | column other value => rw [passes_column_iff, passes_column_iff, columns]
    | info other value => rw [passes_info_iff, passes_info_iff, info]
  | column key val =>
    cases w with
    | tensor other value => exact Iff.rfl
    | column other value =>
      simp only [passes_column_iff, writeEntry, Dict.get?_set, if_neg (Ne.symm apart)]
    | info other value => exact Iff.rfl
  | info key val =>
    cases w with
    | tensor other value => exact Iff.rfl
    | column other value => exact Iff.rfl
    | info other value =>
      simp only [passes_info_iff, writeEntry, Dict.get?_set, if_neg (Ne.symm apart)]

theorem holds_writeEntry {v w : Entry τ ω μ} (apart : Apart v w)
    (pass : Effect.Passes (checkEntry cmp) d v = true) (here : Holds d w) :
    Holds (writeEntry d v) w := by
  cases v with
  | tensor key tensor =>
    obtain ⟨values, -, columns, info⟩ := read_writeEntry_tensor pass
    cases w with
    | tensor other value =>
      have own := mem_keys_iff.mp here
      rw [Holds, mem_keys_iff, values, Option.isSome_or, own, Bool.true_or]
    | column other value => rwa [Holds, columns]
    | info other value => rwa [Holds, info]
  | column key val =>
    cases w with
    | tensor other value => exact here
    | column other value => rwa [Holds, writeEntry, Dict.get?_set, if_neg (Ne.symm apart)]
    | info other value => exact here
  | info key val =>
    cases w with
    | tensor other value => exact here
    | column other value => exact here
    | info other value => rwa [Holds, writeEntry, Dict.get?_set, if_neg (Ne.symm apart)]

theorem holds_written {w : Entry τ ω μ} (pass : Effect.Passes (checkEntry cmp) d w = true) :
    Holds (writeEntry d w) w := by
  cases w with
  | tensor key tensor =>
    rw [Holds, mem_keys_iff, (read_writeEntry_tensor pass).1, if_pos rfl, Option.isSome_or,
    Option.isSome_some, Bool.or_true]
  | column key val => rw [Holds, writeEntry, Dict.get?_set, if_pos rfl]
  | info key val => rw [Holds, writeEntry, Dict.get?_set, if_pos rfl]

theorem writeEntry_of_holds {w : Entry τ ω μ} (here : Holds d w) : writeEntry d w = d := by
  cases w with
  | tensor key tensor =>
    cases present : d.batch with
    | none => simp only [writeEntry, present]
    | some batch =>
      rw [Holds, mem_keys_iff, tensors, present] at here
      obtain ⟨own, found⟩ := Option.isSome_iff_exists.mp here
      simp only [writeEntry, present, found]
  | column key val => rw [writeEntry, Dict.set_of_get? here]
  | info key val => rw [writeEntry, Dict.set_of_get? here]

theorem separate : Effect.Separate (checkEntry cmp) writeEntry Holds Apart where
  check_write := passes_writeEntry
  present_write := holds_writeEntry
  written := holds_written
  write_present := writeEntry_of_holds

def SameSize (d other : DataProto τ ω μ) : Prop :=
  ∃ batch otherBatch, d.batch = some batch ∧ other.batch = some otherBatch ∧
    batch.batchSize = otherBatch.batchSize

variable {other : DataProto τ ω μ}

theorem union_run (sizes : SameSize d other) :
    union cmp other d = other.entries.forM (unionEntry cmp) d := by
  obtain ⟨batch, otherBatch, present, otherPresent, same⟩ := sizes
  have theirs : other.tensors = otherBatch.tensors := by rw [tensors, otherPresent]
  have asked : Effect.attempt (assertSizes batch.batchSize otherBatch.batchSize) d =
      (.ok (), d) := by
    simp [Effect.attempt, assertSizes, pyAssert, same]
  simp only [union, present, otherPresent]
  rw [Effect.bind_ok asked, entries, theirs]
  simp only [unionTensors, unionColumns, unionInfo, List.forM_eq_forM, List.forM_append,
    List.forM_map]

theorem union_error (sizes : ¬SameSize d other) : ∃ e, union cmp other d = (.error e, d) := by
  unfold union
  cases present : d.batch with
  | none => exact ⟨_, rfl⟩
  | some batch =>
    cases otherPresent : other.batch with
    | none => exact ⟨_, rfl⟩
    | some otherBatch =>
      have different : batch.batchSize ≠ otherBatch.batchSize :=
        fun same => sizes ⟨batch, otherBatch, present, otherPresent, same⟩
      have refused : ∃ e, assertSizes batch.batchSize otherBatch.batchSize = .error e := by
        simp [assertSizes, pyAssert, different]
      obtain ⟨e, refused⟩ := refused
      have asked : Effect.attempt (assertSizes batch.batchSize otherBatch.batchSize) d =
        (.error e, d) := by rw [Effect.attempt, refused]
      exact ⟨e, Effect.bind_error asked⟩

/-- What `union` takes before an entry that is in conflict, it does not give back. -/
theorem union_atomic_iff : (union cmp other).Atomic d ↔ (SameSize d other →
    other.entries.all (Effect.Passes (checkEntry cmp) d) = true ∨
    ∀ w ∈ other.entries.takeWhile (Effect.Passes (checkEntry cmp) d), Holds d w) := by
  by_cases sizes : SameSize d other
  · have loop : (union cmp other).Atomic d ↔ (other.entries.forM (unionEntry cmp)).Atomic d := by
      unfold Effect.Atomic
      rw [union_run sizes]
    rw [loop, unionEntry, Effect.atomic_forM_store_iff separate Apart.symm (entries_apart other) d]
    simp [sizes]
  · have stopped : ∃ e, union cmp other d = (.error e, d) := union_error sizes
    obtain ⟨e, failed⟩ := stopped
    simp [atomic_of_error failed, sizes]

end Union

/-- A raised `union` or `pop` has left the object as it was exactly when it had taken or removed
nothing before the entry or the key at which it stopped. -/
theorem union_pop_atomic_iff (cmp : Comparisons τ ω μ) (d other : DataProto τ ω μ)
    (batchKeys nonTensorBatchKeys metaInfoKeys : Option (List String))
    (consistent : d.checkConsistency = .ok ⟨⟩) :
    ((union cmp other).Atomic d ↔ (SameSize d other →
      other.entries.all (Effect.Passes (checkEntry cmp) d) = true ∨
      ∀ w ∈ other.entries.takeWhile (Effect.Passes (checkEntry cmp) d), Holds d w)) ∧
    ((pop batchKeys nonTensorBatchKeys metaInfoKeys).Atomic d ↔ ∀ keys, batchKeys = some keys →
      Poppable d keys (nonTensorBatchKeys.getD []) (metaInfoKeys.getD []) ∨
      FailsAtOnce d keys (nonTensorBatchKeys.getD []) (metaInfoKeys.getD [])) := by
  constructor
  · exact union_atomic_iff
  · cases batchKeys with
    | none =>
      simp only [reduceCtorEq, false_implies, implies_true, iff_true]
      intro e s' failed
      cases failed
      rfl
    | some keys => simpa using pop_atomic_iff nonTensorBatchKeys metaInfoKeys consistent

section Prompt

def byValue : Comparisons Nat Nat Nat :=
  ⟨fun a b => .ok (a == b), fun a b => .ok (a == b), fun a b => .ok (a == b)⟩

def promptBatch : DataProto Nat Nat Nat :=
  ⟨some ⟨1, ⟨[("input_ids", ⟨[], [7]⟩), ("attention_mask", ⟨[], [1]⟩)], by simp⟩, by simp⟩,
    ⟨[("raw_prompt_ids", ⟨[], [3]⟩)], by simp⟩, ⟨[("temperature", 1)], by simp⟩⟩

def responseBatch (temperature : Nat) : DataProto Nat Nat Nat :=
  ⟨some ⟨1, ⟨[("responses", ⟨[], [9]⟩)], by simp⟩, by simp⟩, .empty,
    ⟨[("temperature", temperature)], by simp⟩⟩

theorem union_pop_atomic_prompt : (union byValue (responseBatch 1)).Atomic promptBatch ∧
    (pop (some ["logits", "input_ids"]) none none).Atomic promptBatch := by
  obtain ⟨joined, -⟩ :=
    union_pop_atomic_iff byValue promptBatch (responseBatch 1) none none none rfl
  obtain ⟨-, popped⟩ :=
    union_pop_atomic_iff byValue promptBatch (responseBatch 1)
      (some ["logits", "input_ids"]) none none rfl
  constructor
  · exact joined.mpr (fun _ => .inl rfl)
  · apply popped.mpr
    rintro _ ⟨⟩
    right
    simp [FailsAtOnce, promptBatch, tensors, Dict.keys]

/-- The responses stay after the conflict of the temperatures, and the popped prompt is lost with
the key that is missing. -/
theorem union_pop_leaves_changes : ¬(union byValue (responseBatch 2)).Atomic promptBatch ∧
    ¬(pop (some ["input_ids", "logits"]) none none).Atomic promptBatch := by
  constructor
  · intro atomic
    have same := atomic _ _ rfl
    cases congrArg (fun d => d.tensors.keys.length) same
  · intro atomic
    have same := atomic _ _ rfl
    cases congrArg (fun d => d.tensors.keys.length) same

end Prompt

end DataProto

end Verl.Protocol
