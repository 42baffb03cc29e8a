import Verl.Protocol.InPlace

/-! Popping a part of a batch for generation and joining it again: `pop` splits the three
dictionaries by their keys, `union` puts them together with a rule of its own for each. -/
namespace Verl.Protocol.DataProto

variable {τ ω μ : Type}

section Union

variable {cmp : Comparisons τ ω μ} {d other : DataProto τ ω μ}

theorem foldl_tensors {es : List (String × Column τ)} (distinct : (es.map Prod.fst).Nodup)
    (pass : ∀ e ∈ es, Effect.Passes (checkEntry cmp) d (.tensor e.1 e.2) = true) :
    (∀ key, (es.foldl (fun d e => writeEntry d (.tensor e.1 e.2)) d).tensors.get? key =
      (d.tensors.get? key).or (es.lookup key)) ∧
    (es.foldl (fun d e => writeEntry d (.tensor e.1 e.2)) d).batch.map TensorDict.batchSize =
      d.batch.map TensorDict.batchSize ∧
    (es.foldl (fun d e => writeEntry d (.tensor e.1 e.2)) d).nonTensorBatch = d.nonTensorBatch ∧
    (es.foldl (fun d e => writeEntry d (.tensor e.1 e.2)) d).metaInfo = d.metaInfo := by
  induction es generalizing d with
  | nil => exact ⟨by simp, rfl, rfl, rfl⟩
  | cons e es ih =>
    obtain ⟨name, tensor⟩ := e
    obtain ⟨fresh, rest⟩ := List.nodup_cons.mp distinct
    have passed := pass (name, tensor) List.mem_cons_self
    have later : ∀ e ∈ es,
        Effect.Passes (checkEntry cmp) (writeEntry d (.tensor name tensor)) (.tensor e.1 e.2) =
        true := by
      intro e member
      have different : Apart (.tensor name tensor : Entry τ ω μ) (.tensor e.1 e.2) := by
        intro same
        exact fresh (List.mem_map.mpr ⟨e, member, same.symm⟩)
      rw [separate.check_write different passed]
      exact pass e (List.mem_cons_of_mem _ member)
    obtain ⟨read, size, columns, info⟩ := read_writeEntry_tensor passed
    obtain ⟨values, sizes, otherColumns, otherInfo⟩ := ih rest later
    refine ⟨?_, sizes.trans size, otherColumns.trans columns, otherInfo.trans info⟩
    intro key
    rw [List.foldl_cons, values, read, List.lookup_cons, Option.or_assoc]
    by_cases same : key = name
    · simp [same]
    · simp [same, beq_eq_false_iff_ne.mpr same]

theorem foldl_columns (es : List (String × Column ω)) (d : DataProto τ ω μ) :
    es.foldl (fun d e => writeEntry d (.column e.1 e.2)) d =
      { d with nonTensorBatch := es.foldl (fun c e => c.set e.1 e.2) d.nonTensorBatch } := by
  induction es generalizing d with
  | nil => rfl
  | cons e es ih => exact ih (writeEntry d (.column e.1 e.2))

theorem foldl_info (es : List (String × μ)) (d : DataProto τ ω μ) :
    es.foldl (fun d e => writeEntry d (.info e.1 e.2)) d =
      { d with metaInfo := es.foldl (fun c e => c.set e.1 e.2) d.metaInfo } := by
  induction es generalizing d with
  | nil => rfl
  | cons e es ih => exact ih (writeEntry d (.info e.1 e.2))

theorem forall_entries {P : Entry τ ω μ → Prop}
    (tensors : ∀ e ∈ other.tensors.entries, P (.tensor e.1 e.2))
    (columns : ∀ e ∈ other.nonTensorBatch.entries, P (.column e.1 e.2))
    (info : ∀ e ∈ other.metaInfo.entries, P (.info e.1 e.2)) :
    ∀ w ∈ other.entries, P w := by
  intro w member
  rcases List.mem_append.mp member with tensor | rest
  · obtain ⟨e, inside, rfl⟩ := List.mem_map.mp tensor
    exact tensors e inside
  · rcases List.mem_append.mp rest with column | value
    · obtain ⟨e, inside, rfl⟩ := List.mem_map.mp column
      exact columns e inside
    · obtain ⟨e, inside, rfl⟩ := List.mem_map.mp value
      exact info e inside

theorem all_pass_of_fresh (sizes : SameSize d other)
    (tensors : ∀ key ∈ other.tensors.keys, d.tensors.get? key = none)
    (columns : ∀ key ∈ other.nonTensorBatch.keys, d.nonTensorBatch.get? key = none)
    (info : ∀ key ∈ other.metaInfo.keys, d.metaInfo.get? key = none) :
    other.entries.all (Effect.Passes (checkEntry cmp) d) = true := by
  obtain ⟨batch, otherBatch, present, otherPresent, same⟩ := sizes
  rw [List.all_eq_true]
  apply forall_entries
  · intro e member
    have fresh := tensors e.1 (List.mem_map_of_mem member)
    rw [DataProto.tensors, otherPresent] at member
    refine passes_tensor_iff.mpr ⟨batch.batchSize, by rw [present, Option.map_some], ?_, ?_⟩
    · intro _
      rw [same]
      exact otherBatch.aligned e member
    · intro _ found
      cases fresh.symm.trans found
  · intro e member
    rw [passes_column_iff, columns e.1 (List.mem_map_of_mem member)]
    simp
  · intro e member
    rw [passes_info_iff, info e.1 (List.mem_map_of_mem member)]
    simp

/-- A union without a conflict: the own tensors win, the other object columns and informations
do. -/
theorem union_ok (sizes : SameSize d other)
    (fits : other.entries.all (Effect.Passes (checkEntry cmp) d) = true) :
    ∃ joined, union cmp other d = (.ok (), joined) ∧
      (∀ key, joined.tensors.get? key = (d.tensors.get? key).or (other.tensors.get? key)) ∧
      (∀ key, joined.nonTensorBatch.get? key =
        (other.nonTensorBatch.get? key).or (d.nonTensorBatch.get? key)) ∧
      (∀ key, joined.metaInfo.get? key = (other.metaInfo.get? key).or (d.metaInfo.get? key)) ∧
      joined.batch.map TensorDict.batchSize = d.batch.map TensorDict.batchSize := by
  have run : union cmp other d = other.entries.forM (unionEntry cmp) d := union_run sizes
  rcases Effect.forM_store separate (entries_apart other) d with ⟨-, all⟩ | ⟨some, -⟩
  · rw [unionEntry, all] at run
    have pass : ∀ e ∈ other.tensors.entries,
        Effect.Passes (checkEntry cmp) d (.tensor e.1 e.2) = true := by
      intro e member
      exact List.all_eq_true.mp fits (.tensor e.1 e.2)
        (List.mem_append_left _ (List.mem_map.mpr ⟨e, member, rfl⟩))
    obtain ⟨tensors, size, columns, info⟩ := foldl_tensors other.tensors.distinct pass
    rw [entries, List.foldl_append, List.foldl_append, List.foldl_map, List.foldl_map,
      List.foldl_map, foldl_info, foldl_columns, columns, info] at run
    refine ⟨_, run, tensors, ?_, ?_, size⟩
    · exact Dict.get?_foldl_set other.nonTensorBatch.distinct d.nonTensorBatch
    · exact Dict.get?_foldl_set other.metaInfo.distinct d.metaInfo
  · rw [some] at fits
    cases fits

end Union

section Parts

variable [DecidableEq τ] [DecidableEq μ]

def valueComparisons (equals : Column ω → Column ω → Bool) : Comparisons τ ω μ :=
  ⟨fun own tensor => .ok (own = tensor), fun val own => .ok (equals val own), fun val own =>
    .ok (own = val)⟩

variable {equals : Column ω → Column ω → Bool} {d d' other : DataProto τ ω μ}
  {batch otherBatch : TensorDict τ}

def withBatch (d : DataProto τ ω μ) (batch : TensorDict τ) : DataProto τ ω μ :=
  { d with batch := some batch }

def withColumns (d : DataProto τ ω μ) (columns : Dict (Column ω)) : DataProto τ ω μ :=
  { d with nonTensorBatch := columns }

def withInfo (d : DataProto τ ω μ) (info : Dict μ) : DataProto τ ω μ := { d with metaInfo := info }

end Parts

section Pop

/-- The entries of `c` under the keys are in `out`, the others in `left`. -/
structure Splits {β : Type} (keys : List String) (c left out : Dict β) : Prop where
  selected : ∀ key, key ∈ out.keys ↔ key ∈ keys
  disjoint : ∀ key ∈ left.keys, key ∉ out.keys
  together : ∀ key, key ∈ c.keys ↔ key ∈ left.keys ∨ key ∈ out.keys
  left_values : ∀ key ∈ left.keys, left.get? key = c.get? key
  out_values : ∀ key ∈ out.keys, out.get? key = c.get? key

variable {β : Type} {keys : List String} {c left out : Dict β}

theorem splits_of_values (there : ∀ key ∈ keys, key ∈ c.keys)
    (lefts : ∀ key, left.get? key = if key ∈ keys then none else c.get? key)
    (outs : ∀ key, out.get? key = if key ∈ keys then c.get? key else none) :
    Splits keys c left out := by
  have out_keys : ∀ key, key ∈ out.keys ↔ key ∈ keys := keys_popped there outs
  have left_keys : ∀ key, key ∈ left.keys ↔ key ∈ c.keys ∧ key ∉ keys := by
    intro key
    rw [← Dict.contains_iff, ← Dict.contains_iff, Dict.contains, Dict.contains, lefts]
    by_cases member : key ∈ keys
    · simp [member]
    · simp [member]
  constructor
  · exact out_keys
  · intro key member inside
    exact ((left_keys key).mp member).2 ((out_keys key).mp inside)
  · intro key
    rw [left_keys, out_keys]
    constructor
    · intro member
      by_cases popped : key ∈ keys
      · exact .inr popped
      · exact .inl ⟨member, popped⟩
    · rintro (⟨member, -⟩ | popped)
      · exact member
      · exact there key popped
  · intro key member
    rw [lefts, if_neg ((left_keys key).mp member).2]
  · intro key member
    rw [outs, if_pos ((out_keys key).mp member)]

namespace Splits

theorem get?_left (splits : Splits keys c left out) {key : String} (popped : key ∈ out.keys) :
    left.get? key = none := by
  rw [Dict.get?_eq_none_iff]
  exact fun member => splits.disjoint key member popped

theorem joined (splits : Splits keys c left out) (key : String) :
    (left.get? key).or (out.get? key) = c.get? key ∧
      (out.get? key).or (left.get? key) = c.get? key := by
  by_cases popped : key ∈ out.keys
  · simp [splits.get?_left popped, splits.out_values key popped]
  · have missing := Dict.get?_eq_none_iff.mpr popped
    by_cases member : key ∈ left.keys
    · simp [missing, splits.left_values key member]
    · have nowhere : c.get? key = none := by
        rw [Dict.get?_eq_none_iff, splits.together]
        exact not_or.mpr ⟨member, popped⟩
      simp [missing, Dict.get?_eq_none_iff.mpr member, nowhere]

end Splits

variable {d : DataProto τ ω μ} {bs cs ms : List String}

theorem batchSize_without :
    (without bs cs ms d).batch.map TensorDict.batchSize = d.batch.map TensorDict.batchSize := by
  have frame : (without bs cs ms d).batch = (bs.foldl (fun d key => delTensor key d) d).batch :=
    (foldl_delInfo ms _).1.trans (foldl_delColumn cs _).1
  rw [frame]
  clear frame
  induction bs generalizing d with
  | nil => rfl
  | cons key bs ih =>
    rw [List.foldl_cons, ih, delTensor]
    cases d.batch with
    | none => rfl
    | some batch => rfl

/-- The popped entries and the others are the entries of the batch, and `union` joins them again,
also when no tensor was left. -/
theorem pop_union_restores (cmp : Comparisons τ ω μ) (d : DataProto τ ω μ) (batchKeys : List String)
    (nonTensorBatchKeys metaInfoKeys : Option (List String))
    (consistent : d.checkConsistency = .ok ⟨⟩)
    (poppable : Poppable d batchKeys (nonTensorBatchKeys.getD []) (metaInfoKeys.getD [])) :
    ∃ p left joined, pop (some batchKeys) nonTensorBatchKeys metaInfoKeys d = (.ok p, left) ∧
      Splits batchKeys d.tensors left.tensors p.tensors ∧
      Splits (nonTensorBatchKeys.getD []) d.nonTensorBatch left.nonTensorBatch p.nonTensorBatch ∧
      Splits (metaInfoKeys.getD []) d.metaInfo left.metaInfo p.metaInfo ∧
      union cmp p left = (.ok (), joined) ∧
      (∀ key, joined.tensors.get? key = d.tensors.get? key) ∧
      (∀ key, joined.nonTensorBatch.get? key = d.nonTensorBatch.get? key) ∧
      (∀ key, joined.metaInfo.get? key = d.metaInfo.get? key) ∧
      joined.batch.map TensorDict.batchSize = d.batch.map TensorDict.batchSize := by
  obtain ⟨p, popped, ptensors, pcolumns, pinfo, psize⟩ := pop_ok poppable consistent
  obtain ⟨left, rest⟩ :
    ∃ left, left = without batchKeys (nonTensorBatchKeys.getD []) (metaInfoKeys.getD []) d :=
    ⟨_, rfl⟩
  have tensors : Splits batchKeys d.tensors left.tensors p.tensors :=
    splits_of_values poppable.tensors.2 (fun key => rest ▸ get?_tensors_without key) ptensors
  have columns : Splits (nonTensorBatchKeys.getD []) d.nonTensorBatch left.nonTensorBatch
    p.nonTensorBatch :=
    splits_of_values poppable.columns.2 (fun key => rest ▸ get?_columns_without key) pcolumns
  have info : Splits (metaInfoKeys.getD []) d.metaInfo left.metaInfo p.metaInfo :=
    splits_of_values poppable.info.2 (fun key => rest ▸ get?_info_without key) pinfo
  have size : left.batch.map TensorDict.batchSize = d.batch.map TensorDict.batchSize :=
    rest ▸ batchSize_without
  rw [← rest] at popped
  obtain ⟨key, asked⟩ := List.exists_mem_of_ne_nil batchKeys poppable.some
  have there := (tensors.selected key).mpr asked
  cases pbatch : p.batch with
  | none =>
    rw [DataProto.tensors, pbatch] at there
    cases there
  | some td =>
    rw [← psize, pbatch] at size
    obtain ⟨batch, own, same⟩ := Option.map_eq_some_iff.mp size
    have sizes : SameSize left p := ⟨batch, td, own, pbatch, same⟩
    have fits : p.entries.all (Effect.Passes (checkEntry cmp) left) = true :=
      all_pass_of_fresh sizes (fun key => tensors.get?_left) (fun key => columns.get?_left)
        (fun key => info.get?_left)
    obtain ⟨joined, run, jtensors, jcolumns, jinfo, jsize⟩ := union_ok sizes fits
    refine ⟨p, left, joined, popped, tensors, columns, info, run, ?_, ?_, ?_, ?_⟩
    · exact fun key => (jtensors key).trans (tensors.joined key).1
    · exact fun key => (jcolumns key).trans (columns.joined key).2
    · exact fun key => (jinfo key).trans (info.joined key).2
    · rw [jsize, own, ← psize, pbatch, Option.map_some, Option.map_some, same]

theorem pop_union_restores_prompt : ∃ p left joined,
    pop (some ["attention_mask", "input_ids"]) (some ["raw_prompt_ids"]) none promptBatch =
      (.ok p, left) ∧
    union byValue p left = (.ok (), joined) ∧ joined.tensors.get? "input_ids" = some ⟨[], [7]⟩ ∧
    joined.nonTensorBatch.get? "raw_prompt_ids" = some ⟨[], [3]⟩ ∧
      joined.metaInfo.get? "temperature" = some 1 := by
  have poppable : Poppable promptBatch ["attention_mask", "input_ids"] ["raw_prompt_ids"] [] := by
    constructor <;> simp [promptBatch, tensors, Dict.keys]
  obtain ⟨p, left, joined, popped, -, -, -, run, ts, cols, info, -⟩ :=
    pop_union_restores byValue promptBatch ["attention_mask",
      "input_ids"] (some ["raw_prompt_ids"]) none rfl poppable
  exact ⟨p, left, joined, popped, run, ts "input_ids", cols "raw_prompt_ids", info "temperature"⟩

end Pop

end Verl.Protocol.DataProto
