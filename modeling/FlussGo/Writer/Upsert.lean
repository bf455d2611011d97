import FlussGo.Writer.Create
import FlussGo.Writer.Dispatch
/-!
# The upsert writer

What `Upsert`, `PartialUpsert` and `Delete` queue, and `upsertWriterLoop.add`. Items of one batch
have one list of target columns.
-/
namespace FlussGo
open List LoopState Nat Prod String
/-- `pendingKVWrite`; `future` identifies the write future. -/
structure UpsertItem (w : UpsertWriter) where
  record : KVRecord
  bucket : Int
  targets : List Int
  size : Int
  future : Nat
  bucket_mem : bucket ∈ w.buckets

def targetKey : List Int → String
  | [] => ""
  | target :: targets => toString target ++ "," ++ targetKey targets

private theorem target_toList (target : Int) : (toString target).toList =
    if 0 ≤ target then toDigits 10 target.toNat else '-' :: toDigits 10 (-target).toNat := by
  rw [Int.toString_eq_repr,Int.repr_eq_if]
  split
  · rw [repr_eq_ofList_toDigits,toList_ofList]
  · simp [repr_eq_ofList_toDigits]

private theorem not_mem_digits {c : Char} (hc : c.isDigit = false) (n : Nat) : c ∉ toDigits 10 n := by
  intro hmem
  rw [isDigit_of_mem_toDigits (by decide) (by decide) hmem] at hc
  exact Bool.noConfusion hc

private theorem comma_not_mem_target (target : Int) : ',' ∉ (toString target).toList := by
  rw [target_toList]
  split
  · exact not_mem_digits (by decide) _
  · rw [mem_cons]
    rintro (h | h)
    · exact absurd h (by decide)
    · exact not_mem_digits (by decide) _ h

private theorem digits_injective {m n : Nat} (h : toDigits 10 m = toDigits 10 n) : m = n := by
  rw [← ofDigitChars_ten_toDigits (n := m),h,ofDigitChars_ten_toDigits]

private theorem target_injective {t u : Int} (h : (toString t).toList = (toString u).toList) : t = u := by
  have hm : ∀ m n, toDigits 10 m ≠ '-' :: toDigits 10 n := by
    intro m n heq
    exact not_mem_digits (c := '-') (by decide) m (heq ▸ mem_cons_self)
  rw [target_toList,target_toList] at h
  split at h <;> split at h
  · have := digits_injective h
    omega
  · exact absurd h (hm _ _)
  · exact absurd h.symm (hm _ _)
  · have := digits_injective (cons.inj h).2
    omega

private theorem cut_at_comma {a b r r' : List Char} (ha : ',' ∉ a) (hb : ',' ∉ b) (h : a ++ ',' :: r = b ++ ',' :: r') :
    a = b ∧ r = r' := by
  induction a generalizing b with
  | nil =>
    cases b with
    | nil => exact ⟨rfl,(cons.inj h).2⟩
    | cons c b => exact absurd ((cons.inj h).1 ▸ mem_cons_self) hb
  | cons c a ih =>
    cases b with
    | nil => exact absurd ((cons.inj h).1 ▸ mem_cons_self) ha
    | cons c' b =>
      obtain ⟨rfl,hre⟩ := cons.inj h
      obtain ⟨rfl,hr⟩ := ih (not_mem_of_not_mem_cons ha) (not_mem_of_not_mem_cons hb) hre
      exact ⟨rfl,hr⟩

theorem targetKey_injective {ts us : List Int} (h : targetKey ts = targetKey us) : ts = us := by
  have hc : ∀ t ts, (targetKey (t :: ts)).toList = (toString t).toList ++ ',' :: (targetKey ts).toList := by
    intro t ts
    simp [targetKey]
  have hne : ∀ t ts, targetKey (t :: ts) ≠ "" := by
    intro t ts heq
    have := hc t ts
    rw [heq] at this
    simp at this
  induction ts generalizing us with
  | nil =>
    cases us with
    | nil => rfl
    | cons u us => exact absurd h.symm (hne u us)
  | cons t ts ih =>
    cases us with
    | nil => exact absurd h (hne t ts)
    | cons u us =>
      have hl := congrArg toList h
      rw [hc,hc] at hl
      obtain ⟨hh,ht⟩ := cut_at_comma (comma_not_mem_target t) (comma_not_mem_target u) hl
      rw [target_injective hh,ih (toList_inj.mp ht)]
/-- `values[name]` of a map to which the pairs were written in turn: the last one counts. -/
def valueOf (values : List (String × Value)) (name : String) : Value := (values.reverse.lookup name).getD .nil

section ValueOf
variable {names : List String} {name : String} {v : Value} {values : List (String × Value)}

private theorem lookup_of_mem (hn : (values.map fst).Nodup)
    (h : (name, v) ∈ values) : values.lookup name = some v := by
  induction values with
  | nil => simp at h
  | cons entry values ih =>
    rw [map_cons,nodup_cons] at hn
    rcases mem_cons.mp h with rfl | hmem
    · simp
    · have hne : name ≠ entry.1 := fun heq => hn.1 (heq ▸ mem_map_of_mem hmem)
      rw [lookup_cons,beq_eq_false_iff_ne.mpr hne]
      exact ih hn.2 hmem

theorem valueOf_of_mem (hn : (values.map fst).Nodup) (h : (name, v) ∈ values) : valueOf values name = v := by
  have hr : (values.reverse.map fst).Nodup := by
    rw [map_reverse]
    exact nodup_reverse.mpr hn
  rw [valueOf,lookup_of_mem hr (mem_reverse.mpr h),Option.getD_some]

theorem zip_fst_nodup (h : names.Nodup) (row : Row) : ((names.zip row).map fst).Nodup := by
  induction names generalizing row with
  | nil => simp
  | cons name names ih =>
    cases row with
    | nil => simp
    | cons v row =>
      rw [nodup_cons] at h
      rw [zip_cons_cons,map_cons,nodup_cons]
      refine ⟨fun hmem => ?_,ih h.2 row⟩
      obtain ⟨entry,he,rfl⟩ := mem_map.mp hmem
      exact h.1 (of_mem_zip he).1

theorem valueOf_of_not_mem (h : name ∉ values.map fst) : valueOf values name = .nil := by
  have hn : values.reverse.lookup name = none := by
    rw [lookup_eq_none_iff]
    intro entry he
    rw [bne_iff_ne]
    rintro rfl
    exact h (mem_map_of_mem (mem_reverse.mp he))
  rw [valueOf,hn,Option.getD_none]
end ValueOf

namespace UpsertWriter
variable (w : UpsertWriter)

def bucketNames : List String :=
  if w.table.schema.bucketKey.isEmpty then w.table.schema.primaryKey else w.table.schema.bucketKey

def mutationItem (values : List (String × Value)) (value : Option Bytes) (targets : List Int) (future : Nat) :
    Go (UpsertItem w) := do
  let key ← encodePrimaryKey w.table.schema (w.table.schema.primaryKey.map (valueOf values))
  let bucketKey ← encodeKeyColumns w.table.schema w.bucketNames (w.bucketNames.map (valueOf values))
  match hbucket : keyBucket w.buckets bucketKey with
  | .ok bucket =>
    return {
      record := ⟨key,value⟩, bucket := bucket, targets := targets, size := key.length + (value.getD []).length + 8
      future := future, bucket_mem := keyBucket_mem hbucket }
  | .err e => .err e
  | .panic p => .panic p

variable {w} in
theorem mutationItem_eq_ok {values : List (String × Value)} {value : Option Bytes} {targets : List Int} {future : Nat}
    {x : UpsertItem w} (h : w.mutationItem values value targets future = .ok x) :
    encodePrimaryKey w.table.schema (w.table.schema.primaryKey.map (valueOf values)) = .ok x.record.key ∧
      (∃ bucketKey, encodeKeyColumns w.table.schema w.bucketNames (w.bucketNames.map (valueOf values)) = .ok bucketKey ∧
        keyBucket w.buckets bucketKey = .ok x.bucket) ∧
      x.record.value = value ∧ x.size = x.record.key.length + (value.getD []).length + 8 := by
  obtain ⟨key,hkey,h⟩ := Outcome.of_bind h
  obtain ⟨bucketKey,hb,h⟩ := Outcome.of_bind h
  split at h
  next bucket hbu =>
    cases h
    exact ⟨hkey,⟨bucketKey,hb,hbu⟩,rfl,rfl⟩
  · simp at h
  · simp at h
/-- `rowValues`, for names and values of one length. -/
def rowValues (names : List String) (row : Row) : List (String × Value) := names.zip row

def upsertItem (row : Row) (future : Nat) : Go (UpsertItem w) :=
  if !w.table.schema.autoIncrement.isEmpty then failf .invalidRow "full upsert includes auto-increment columns"
  else do
    w.table.schema.validateRow row []
    let value ← encodeCompactedRow w.table.schema row
    w.mutationItem (rowValues (w.table.schema.selectedColumns []) row) (some value) [] future

def deleteItem (key : Row) (future : Nat) : Go (UpsertItem w) := do
  w.table.schema.validatePrimaryKey key
  w.mutationItem (rowValues w.table.schema.primaryKey key) none [] future
/-- `positions[name]`, zero for a name that is not there. -/
def columnPosition (name : String) : Nat := (w.table.schema.columns.findIdx? (·.name = name)).getD 0

def partialTargets : List String → List String → Go (List Int)
  | _, [] => .ok []
  | selected, name :: names =>
    if selected.contains name then failf .invalidRow s!"duplicate target column {name.quote}"
    else do
      let targets ← partialTargets (name :: selected) names
      return (w.columnPosition name : Int) :: targets

def validatePartialSelection (selected : List String) : Go Unit :=
  let schema := w.table.schema
  match schema.primaryKey.find? (!selected.contains ·) with
  | some name => failf .invalidRow s!"partial update omits primary key {name.quote}"
  | none =>
    match schema.autoIncrement.find? (selected.contains ·) with
    | some name => failf .invalidRow s!"partial update includes auto-increment column {name.quote}"
    | none =>
      match schema.columns.find? fun column => !selected.contains column.name && !column.nullable &&
        !schema.primaryKey.contains column.name && !schema.autoIncrement.contains column.name with
      | some column => failf .invalidRow s!"omitted column {column.name.quote} is not nullable"
      | none => .ok ()

def validatePartial (columns : List String) (values : Row) : Go (List Int) :=
  if columns.isEmpty ∨ columns.length ≠ values.length then
    failf .invalidRow "partial update columns and values must be non-empty and aligned"
  else do
    w.table.schema.validateRow values columns
    let targets ← w.partialTargets [] columns
    w.validatePartialSelection columns
    return targets
/-- The full row of a partial update: nil where no value is given. -/
def fullRow (columns : List String) (values : Row) : Row :=
  w.table.schema.columns.map fun column => valueOf (rowValues columns values) column.name

def partialUpsertItem (columns : List String) (values : Row) (future : Nat) : Go (UpsertItem w) := do
  let targets ← w.validatePartial columns values
  let value ← encodeCompactedRow w.table.schema (w.fullRow columns values)
  w.mutationItem (rowValues columns values) (some value) targets future
/-- `completeKVBatch`; the offset of the result is the log end. -/
def completeBatch : CompleteBatch (UpsertItem w) (List Int) := fun batch bucket result =>
  completeItems
    (fun _ offset => {
      bucket := bucket, baseOffset := offset, offsetKnown := result.offsetKnown, records := 1
      pressure := result.pressure, pressureKnown := result.pressureKnown, err := result.err })
    (fun _ offset => offset + 1) (if result.offsetKnown then result.offset - batch.items.length else 0) batch.items

def loopConfig (hw : w.Created) : LoopConfig where
  buckets := w.buckets
  maxConcurrentRequests := w.config.maxConcurrentRequests
  nodup := hw.facts.1
  pos := hw.facts.2.2.maxConcurrentRequests

variable (c : LoopConfig)

def newBatch (s : LoopState (UpsertItem w) (List Int)) (x : UpsertItem w) :
    LoopState (UpsertItem w) (List Int) × Batch (UpsertItem w) (List Int) :=
  (s.openBatch x.bucket x.targets, ⟨[],x.targets,0⟩)

def compatibleBatch (s : LoopState (UpsertItem w) (List Int)) (x : UpsertItem w) :
    LoopState (UpsertItem w) (List Int) × Batch (UpsertItem w) (List Int) :=
  match s.batches x.bucket with
  | some batch =>
    if targetKey batch.targets ≠ targetKey x.targets then w.newBatch (s.flushBucket c w.completeBatch x.bucket).1 x
    else (s, batch)
  | none => w.newBatch s x
/-- The batch an item joins: a compatible one, or a new one when that would overflow. -/
def batchFor (s : LoopState (UpsertItem w) (List Int)) (x : UpsertItem w) :
    LoopState (UpsertItem w) (List Int) × Batch (UpsertItem w) (List Int) :=
  let (s, batch) := w.compatibleBatch c s x
  if !batch.items.isEmpty && w.config.batchFullWith batch x.size then
    w.newBatch (s.flushBucket c w.completeBatch x.bucket).1 x
  else (s, batch)

def add (s : LoopState (UpsertItem w) (List Int)) (x : UpsertItem w) : LoopState (UpsertItem w) (List Int) :=
  let (s, batch) := w.batchFor c s x
  let s := s.assign x.bucket batch x x.size
  let full := w.config.batchFull { batch with items := batch.items ++ [x], bytes := batch.bytes + x.size }
  if full || w.config.batchTimeout = 0 then (s.flushBucket c w.completeBatch x.bucket).1
  else s.armTimer w.config.toBatchConfig

section Laws
variable {w c} {s s₁ s₂ : LoopState (UpsertItem w) (List Int)} {x : UpsertItem w}

private theorem newBatch_ops {s₀ : LoopState (UpsertItem w) (List Int)} {xs : List (UpsertItem w)}
    (h : Ops c UpsertItem.targets w.completeBatch s₀ xs s) (he : s.openItems x.bucket = []) :
    Ops c UpsertItem.targets w.completeBatch s₀ xs (w.newBatch s x).1 ∧
      (w.newBatch s x).1.batches x.bucket = some (w.newBatch s x).2 ∧ x.targets = (w.newBatch s x).2.targets :=
  ⟨.openBatch x.bucket x.targets h he,by simp [newBatch,openBatch],rfl⟩

private theorem compatibleBatch_ops : Ops c UpsertItem.targets w.completeBatch s [] (w.compatibleBatch c s x).1 ∧
      (w.compatibleBatch c s x).1.batches x.bucket = some (w.compatibleBatch c s x).2 ∧
      x.targets = (w.compatibleBatch c s x).2.targets := by
  unfold compatibleBatch
  cases ho : s.batches x.bucket with
  | none => exact newBatch_ops (.refl s) (by simp [openItems,ho])
  | some batch =>
    dsimp only
    split
    · exact newBatch_ops (.flush x.bucket (.refl s)) (flushBucket_openItems x.bucket s)
    next hs => exact ⟨.refl s,ho,(targetKey_injective (not_not.mp hs)).symm⟩

private theorem batchFor_ops : Ops c UpsertItem.targets w.completeBatch s [] (w.batchFor c s x).1 ∧
      (w.batchFor c s x).1.batches x.bucket = some (w.batchFor c s x).2 ∧ x.targets = (w.batchFor c s x).2.targets := by
  obtain ⟨hops,ho,ht⟩ := compatibleBatch_ops (w := w) (c := c) (s := s) (x := x)
  unfold batchFor
  dsimp only
  split
  · exact newBatch_ops (.flush x.bucket hops) (flushBucket_openItems x.bucket _)
  · exact ⟨hops,ho,ht⟩

theorem add_ops (hc : c.buckets = w.buckets) : Ops c UpsertItem.targets w.completeBatch s [x] (w.add c s x) := by
  obtain ⟨hops,ho,ht⟩ := batchFor_ops (w := w) (c := c) (s := s) (x := x)
  have ha := Ops.assign x.size hops (hc ▸ x.bucket_mem) ho ht
  unfold add
  dsimp only
  split
  · exact .flush x.bucket ha
  · exact .timer _ ha

private theorem newBatch_view (h : s₁.view = s₂.view) (x : UpsertItem w) :
    (w.newBatch s₁ x).2 = (w.newBatch s₂ x).2 ∧ (w.newBatch s₁ x).1.view = (w.newBatch s₂ x).1.view :=
  ⟨rfl,openBatch_view_congr h x.bucket x.targets⟩

private theorem compatibleBatch_view (h : s₁.view = s₂.view) (x : UpsertItem w) :
    (w.compatibleBatch c s₁ x).2 = (w.compatibleBatch c s₂ x).2 ∧
      (w.compatibleBatch c s₁ x).1.view = (w.compatibleBatch c s₂ x).1.view := by
  have hb : s₁.batches = s₂.batches := congrArg LoopState.View.batches h
  unfold compatibleBatch
  rw [hb]
  cases s₂.batches x.bucket with
  | none => exact newBatch_view h x
  | some batch =>
    dsimp only
    split
    · exact newBatch_view (flushBucket_view_congr h c w.completeBatch x.bucket) x
    · exact ⟨rfl,h⟩

private theorem batchFor_view (h : s₁.view = s₂.view) (x : UpsertItem w) :
    (w.batchFor c s₁ x).2 = (w.batchFor c s₂ x).2 ∧ (w.batchFor c s₁ x).1.view = (w.batchFor c s₂ x).1.view := by
  obtain ⟨hb,hv⟩ := compatibleBatch_view (c := c) h x
  unfold batchFor
  dsimp only
  rw [hb]
  split
  · exact newBatch_view (flushBucket_view_congr hv c w.completeBatch x.bucket) x
  · exact ⟨rfl,hv⟩

theorem add_view (h : s₁.view = s₂.view) (x : UpsertItem w) : (w.add c s₁ x).view = (w.add c s₂ x).view := by
  obtain ⟨hb,hv⟩ := batchFor_view (c := c) h x
  have ha := assign_view_congr hv x.bucket (w.batchFor c s₂ x).2 x x.size
  unfold add
  dsimp only
  rw [hb]
  split
  · exact flushBucket_view_congr ha c w.completeBatch x.bucket
  · exact armTimer_view_congr ha _
end Laws

def loop (w : UpsertWriter) (hw : w.Created) : WriterLoop (UpsertItem w) (List Int) Unit where
  config := w.loopConfig hw
  targets := UpsertItem.targets
  completeBatch := w.completeBatch
  completeBatch_items _ _ _ := completeItems_items
  front := ()
  add _ s x := some ((), w.add (w.loopConfig hw) s x)
  add_ops h := by
    cases h
    exact add_ops rfl
  add_view _ s x := by
    have := add_view (c := w.loopConfig hw) (show s.view = (LoopState.ofView s.view).view from rfl) x
    simp only [Option.map_some,this]
end UpsertWriter
end FlussGo
