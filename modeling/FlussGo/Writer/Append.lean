import FlussGo.Writer.Create
import FlussGo.Writer.Dispatch
/-!
# The append writer

What `Append` and `AppendArrow` queue, and `appendWriterLoop.add`: routing, batch limits and timer.
-/
namespace FlussGo
open Outcome Option LoopState
/-- What `Append` checks before it queues a row, and the size of the queued item. -/
def AppendWriter.append (w : AppendWriter) (row : Row) : Go Nat :=
  if w.config.format = .arrow then failf .invalidConfig "Arrow format requires AppendArrow"
  else do
    w.table.schema.validateRow row []
    let encoded ← encodeCompactedRow w.table.schema row
    return encoded.length + 5

def LogFormat.compactedRows : LogFormat → Bool
  | .indexed => false
  | _ => true

def AppendWriter.encodeBatch (w : AppendWriter) (rows : List Row) (sequence : BitVec 32) : Go Bytes :=
  let batch : LogBatch := {
    magic := 0, baseOffset := -1, schemaID := BitVec.ofInt 16 w.table.schemaID, appendOnly := true
    writerID := w.writerID, batchSequence := sequence
    records := rows.map fun row => { value := row, change := .append, offset := -1 } }
  batch.encodeRows w.table.schema w.config.format.compactedRows
/-- `pendingWrite`. An Arrow record batch stands for its rows; `future` identifies the write future. -/
structure AppendItem (w : AppendWriter) where
  row : Row := []
  arrow : Option (List Row) := none
  changes : List ChangeType := []
  bucket : Option Int := none
  size : Int
  future : Nat
  /-- `hasBucket` was checked for an explicit bucket. -/
  bucket_mem : ∀ b, bucket = some b → b ∈ w.buckets

namespace AppendWriter
variable (w : AppendWriter)

def appendItem (row : Row) (future : Nat) : Go (AppendItem w) := do
  let size ← w.append row
  return { row := row, size := size, future := future, bucket_mem := by simp }

def validateChanges : List ChangeType → Go Unit
  | [] => .ok ()
  | change :: changes => do
    change.validate
    validateChanges changes
/-- The item that `AppendArrow` queues; `sameSchema` is the outcome of comparing the Arrow schemas. -/
def appendArrowItem (sameSchema : Go Bool) (bucket : Int) (rows : List Row) (changes : List ChangeType) (future : Nat) :
    Go (AppendItem w) :=
  if w.config.format = .indexed ∨ w.config.format = .compacted then
    failf .invalidConfig s!"{w.config.format.text} format does not accept Arrow batches"
  else do
    let same ← sameSchema
    if !same then failf .invalidSchema "Arrow batch schema does not match table"
    else if h : bucket ∈ w.buckets ∧ changes.length = rows.length then do
      validateChanges changes
      return {
        arrow := some rows, changes := changes, bucket := some bucket, size := rows.length, future := future
        bucket_mem := by
          intro b hb
          exact some.inj hb ▸ h.1 }
    else failf .invalidRow "invalid Arrow bucket or change count"
/-- A row that `Append` has queued. -/
structure RowItem {w : AppendWriter} (x : AppendItem w) : Prop where
  arrow : x.arrow = none
  bucket : x.bucket = none
  size : ∃ n : Nat, w.append x.row = .ok n ∧ x.size = n
/-- An Arrow batch that `AppendArrow` has queued. -/
structure ArrowItem {w : AppendWriter} (x : AppendItem w) : Prop where
  arrow : ∃ rows, x.arrow = some rows ∧ x.changes.length = rows.length
  bucket : ∃ b, x.bucket = some b
  changes : validateChanges x.changes = .ok ()

def Admitted (x : AppendItem w) : Prop :=
  (∃ row future, w.appendItem row future = .ok x) ∨
    ∃ sameSchema bucket rows changes future, w.appendArrowItem sameSchema bucket rows changes future = .ok x

theorem Admitted.kind {w : AppendWriter} {x : AppendItem w} (h : w.Admitted x) : RowItem x ∨ ArrowItem x := by
  rcases h with ⟨row,future,h⟩ | ⟨same,bucket,rows,changes,future,h⟩
  · obtain ⟨n,hn,h⟩ := of_bind h
    cases h
    exact .inl ⟨rfl,rfl,n,hn,rfl⟩
  rw [appendArrowItem] at h
  have h := (of_guard h).2
  obtain ⟨same,_,h⟩ := of_bind h
  have h := (of_guard h).2
  split at h
  next hc =>
    obtain ⟨hch,h⟩ := of_seq h
    cases h
    exact .inr ⟨⟨rows,rfl,hc.2⟩,⟨bucket,rfl⟩,hch⟩
  · simp at h

def effectiveNoKeyAssigner : NoKeyAssigner :=
  if w.table.schema.bucketKey.isEmpty then
    if w.config.noKeyAssigner = .other "" then .sticky else w.config.noKeyAssigner
  else .other ""
/-- `bucketKeyValues`; column names are distinct in a valid schema. -/
def bucketKeyValues (row : Row) : List String → Go Row
  | [] => .ok []
  | name :: names =>
    match w.table.schema.columns.findIdx? (·.name = name) with
    | none => failf .invalidRow s!"invalid bucket key column {name.quote}"
    | some position =>
      match row[position]? with
      | none => .panic .outOfRange
      | some v =>
        if v.isNil then failf .invalidRow s!"invalid bucket key column {name.quote}"
        else do
          let values ← bucketKeyValues row names
          return v :: values
end AppendWriter
/-- The routing state of an append writer. -/
structure AppendFront where
  roundRobin : Nat := 0
  stickyIndex : Int := -1

namespace AppendWriter
variable (w : AppendWriter)

def bucketAt (index : Nat) : Go Int :=
  match w.buckets[index]? with
  | some bucket => .ok bucket
  | none => .panic .outOfRange

def assignBucket (front : AppendFront) (x : AppendItem w) : Go (Int × AppendFront) :=
  match x.bucket with
  | some bucket => .ok (bucket, front)
  | none =>
    if !w.table.schema.bucketKey.isEmpty then do
      let values ← w.bucketKeyValues x.row w.table.schema.bucketKey
      let key ← encodeKeyColumns w.table.schema w.table.schema.bucketKey values
      let bucket ← keyBucket w.buckets key
      return (bucket, front)
    else if w.effectiveNoKeyAssigner = .roundRobin then do
      let bucket ← w.bucketAt (front.roundRobin % w.buckets.length)
      return (bucket, { front with roundRobin := front.roundRobin + 1 })
    else
      let front := if front.stickyIndex < 0 then { front with stickyIndex := 0 } else front
      do
        let bucket ← w.bucketAt front.stickyIndex.toNat
        return (bucket, front)

def advanceSticky (front : AppendFront) : AppendFront :=
  if 1 < w.buckets.length then { front with stickyIndex := (front.stickyIndex + 1) % w.buckets.length } else front

def advanceIfSticky (front : AppendFront) : AppendFront :=
  if w.effectiveNoKeyAssigner = .sticky then w.advanceSticky front else front
end AppendWriter
/-- `batch`: the open batch of a bucket, created when there is none. -/
def LoopState.batch {ι : Type} (s : LoopState ι Unit) (bucket : Int) : LoopState ι Unit × Batch ι Unit :=
  match s.batches bucket with
  | some batch => (s, batch)
  | none => (s.openBatch bucket (), ⟨[],(),0⟩)

namespace AppendWriter
variable (w : AppendWriter)
/-- The number of records of an item, which `completeBatch` counts. -/
def count {w : AppendWriter} (x : AppendItem w) : Nat := if x.arrow.isSome then x.changes.length else 1

def completeBatch : CompleteBatch (AppendItem w) Unit := fun batch bucket result =>
  completeItems
    (fun x offset => {
      bucket := bucket, baseOffset := offset, offsetKnown := result.offsetKnown, records := count x
      err := result.err })
    (fun x offset => if result.offsetKnown then offset + count x else offset) result.offset batch.items

def loopConfig (hw : w.Created) : LoopConfig where
  buckets := w.buckets
  maxConcurrentRequests := w.config.maxConcurrentRequests
  nodup := hw.facts.1
  pos := hw.facts.2.2.maxConcurrentRequests

variable (c : LoopConfig)
/-- `availableBatch`: the bucket and its open batch for an item, or none when the item was completed. -/
def availableBatch (front : AppendFront) (s : LoopState (AppendItem w) Unit) (bucket : Int) (x : AppendItem w) :
    Option (AppendFront × LoopState (AppendItem w) Unit × Option (Int × Batch (AppendItem w) Unit)) :=
  let (s, batch) := s.batch bucket
  if batch.items.isEmpty || !w.config.batchFullWith batch x.size then some (front, s, some (bucket, batch))
  else
    let s := (s.flushBucket c w.completeBatch bucket).1
    if w.effectiveNoKeyAssigner ≠ .sticky then
      let (s, batch) := s.batch bucket
      some (front, s, some (bucket, batch))
    else
      let front := w.advanceSticky front
      match w.assignBucket front x with
      | .ok (next, front) =>
        let (s, batch) := s.batch next
        some (front, s, some (next, batch))
      | .err e => some (front, s.complete [(x, { err := some e })], none)
      | .panic _ => none
/-- The end of `add`: the item joins the batch, which is flushed when it is full. -/
def addToBatch (front : AppendFront) (s : LoopState (AppendItem w) Unit) (bucket : Int)
    (batch : Batch (AppendItem w) Unit) (x : AppendItem w) : AppendFront × LoopState (AppendItem w) Unit :=
  let s := s.assign bucket batch x x.size
  let full := w.config.batchFull { batch with items := batch.items ++ [x], bytes := batch.bytes + x.size }
  if full || w.config.batchTimeout = 0 then
    (w.advanceIfSticky front, (s.flushBucket c w.completeBatch bucket).1)
  else (front, s.armTimer w.config.toBatchConfig)

def addArrow (s : LoopState (AppendItem w) Unit) (bucket : Int) (x : AppendItem w) : LoopState (AppendItem w) Unit :=
  let s := (s.flushBucket c w.completeBatch bucket).1
  let s := (s.openBatch bucket ()).assign bucket ⟨[],(),0⟩ x 0
  (s.flushBucket c w.completeBatch bucket).1

def add (front : AppendFront) (s : LoopState (AppendItem w) Unit) (x : AppendItem w) :
    Option (AppendFront × LoopState (AppendItem w) Unit) :=
  match w.assignBucket front x with
  | .panic _ => none
  | .err e => some (front, s.complete [(x, { err := some e })])
  | .ok (bucket, front) =>
    if x.arrow.isSome then some (front, w.addArrow c s bucket x)
    else
      match w.availableBatch c front s bucket x with
      | none => none
      | some (front, s, none) => some (front, s)
      | some (front, s, some (bucket, batch)) => some (w.addToBatch c front s bucket batch x)

variable {w c}

theorem bucketAt_mem {index : Nat} {bucket : Int} (h : w.bucketAt index = .ok bucket) : bucket ∈ w.buckets := by
  unfold bucketAt at h
  cases hget : w.buckets[index]? with
  | none => simp [hget] at h
  | some b =>
    simp only [hget] at h
    exact ok.inj h ▸ List.mem_of_getElem? hget

theorem assignBucket_mem {front front' : AppendFront} {x : AppendItem w} {bucket : Int}
    (h : w.assignBucket front x = .ok (bucket, front')) : bucket ∈ w.buckets := by
  unfold assignBucket at h
  cases hb : x.bucket with
  | some b =>
    simp only [hb] at h
    obtain ⟨rfl,_⟩ := Prod.mk.inj (ok.inj h)
    exact x.bucket_mem b hb
  | none =>
    simp only [hb] at h
    split at h
    · obtain ⟨values,_,h⟩ := of_bind h
      obtain ⟨key,_,h⟩ := of_bind h
      obtain ⟨b,hkey,h⟩ := of_bind h
      cases h
      exact keyBucket_mem hkey
    · split at h
      all_goals
        obtain ⟨b,hat,h⟩ := of_bind h
        cases h
        exact bucketAt_mem hat

section Laws
variable {s s₁ s₂ : LoopState (AppendItem w) Unit} {front front' : AppendFront} {x : AppendItem w} {bucket : Int}

def targets (w : AppendWriter) : AppendItem w → Unit := fun _ => ()

private theorem batch_ops {s₀ : LoopState (AppendItem w) Unit} {xs : List (AppendItem w)}
    (h : Ops c w.targets w.completeBatch s₀ xs s) (bucket : Int) :
    Ops c w.targets w.completeBatch s₀ xs (s.batch bucket).1 ∧ (s.batch bucket).1.batches bucket = some (s.batch bucket).2 := by
  unfold batch
  cases ho : s.batches bucket with
  | some batch => exact ⟨h,ho⟩
  | none => exact ⟨.openBatch bucket () h (by simp [openItems,ho]),by simp [openBatch]⟩

private theorem availableBatch_ops {s' : LoopState (AppendItem w) Unit}
    {slot : Option (Int × Batch (AppendItem w) Unit)}
    (hbu : bucket ∈ w.buckets) (h : w.availableBatch c front s bucket x = some (front', s', slot)) :
    (slot = none ∧ Ops c w.targets w.completeBatch s [x] s') ∨
      ∃ b batch, slot = some (b, batch) ∧ b ∈ w.buckets ∧ s'.batches b = some batch ∧
        Ops c w.targets w.completeBatch s [] s' := by
  have hb := batch_ops (c := c) (Ops.refl s) bucket
  unfold availableBatch at h
  dsimp only at h
  split at h
  · cases h
    exact .inr ⟨bucket,_,rfl,hbu,hb.2,hb.1⟩
  have hf := Ops.flush bucket hb.1
  split at h
  · cases h
    have ha := batch_ops hf bucket
    exact .inr ⟨bucket,_,rfl,hbu,ha.2,ha.1⟩
  · split at h
    · rename_i next front'' has
      cases h
      have ha := batch_ops hf next
      exact .inr ⟨next,_,rfl,assignBucket_mem has,ha.2,ha.1⟩
    · cases h
      exact .inl ⟨rfl,.reject _ hf⟩
    · simp at h

theorem add_ops {s' : LoopState (AppendItem w) Unit} (hc : c.buckets = w.buckets)
    (h : w.add c front s x = some (front', s')) : Ops c w.targets w.completeBatch s [x] s' := by
  unfold add at h
  split at h
  · simp at h
  · cases h
    exact .reject _ (.refl s)
  rename_i bucket front₁ has
  have hb := assignBucket_mem has
  split at h
  · cases h
    have hf : Ops c w.targets w.completeBatch s [] (s.flushBucket c w.completeBatch bucket).1 :=
      .flush bucket (.refl s)
    have ho := Ops.openBatch bucket () hf (flushBucket_openItems bucket s)
    exact .flush bucket (.assign 0 ho (hc ▸ hb) (by simp [openBatch]) rfl)
  · split at h
    · simp at h
    next hs =>
      cases h
      rcases availableBatch_ops hb hs with ⟨_,hops⟩ | ⟨_,_,hso,_⟩
      · exact hops
      · simp at hso
    next b batch hs =>
      rcases availableBatch_ops hb hs with ⟨hn,_⟩ | ⟨b',batch',hso,hmem,ho,hops⟩
      · simp at hn
      cases hso
      have ha := Ops.assign (x := x) x.size hops (hc ▸ hmem) ho rfl
      simp only [addToBatch] at h
      split at h
      · cases h
        exact .flush b ha
      · cases h
        exact .timer _ ha

private theorem batch_view (h : s₁.view = s₂.view) (bucket : Int) :
    (s₁.batch bucket).2 = (s₂.batch bucket).2 ∧ (s₁.batch bucket).1.view = (s₂.batch bucket).1.view := by
  have hb : s₁.batches = s₂.batches := congrArg LoopState.View.batches h
  unfold batch
  rw [hb]
  cases s₂.batches bucket with
  | some batch => exact ⟨rfl,h⟩
  | none => exact ⟨rfl,openBatch_view_congr h bucket ()⟩

private theorem availableBatch_view (h : s₁.view = s₂.view) (front : AppendFront) (bucket : Int) (x : AppendItem w) :
    (w.availableBatch c front s₁ bucket x).map (fun r => (r.1, r.2.1.view, r.2.2)) =
      (w.availableBatch c front s₂ bucket x).map (fun r => (r.1, r.2.1.view, r.2.2)) := by
  obtain ⟨hb,hv⟩ := batch_view h bucket
  have hf := flushBucket_view_congr hv c w.completeBatch bucket
  unfold availableBatch
  dsimp only
  rw [hb]
  split
  · simp [hv]
  split
  · obtain ⟨hb',hv'⟩ := batch_view hf bucket
    simp [hb',hv']
  cases w.assignBucket (w.advanceSticky front) x with
  | ok r =>
    obtain ⟨hb',hv'⟩ := batch_view hf r.1
    simp [hb',hv']
  | err e => simpa [complete,view] using hf
  | panic p => rfl

private theorem addToBatch_view (h : s₁.view = s₂.view) (front : AppendFront) (bucket : Int)
    (batch : Batch (AppendItem w) Unit) (x : AppendItem w) :
    (w.addToBatch c front s₁ bucket batch x).1 = (w.addToBatch c front s₂ bucket batch x).1 ∧
      (w.addToBatch c front s₁ bucket batch x).2.view = (w.addToBatch c front s₂ bucket batch x).2.view := by
  have ha := assign_view_congr h bucket batch x x.size
  unfold addToBatch
  dsimp only
  split
  · exact ⟨rfl,flushBucket_view_congr ha c w.completeBatch bucket⟩
  · exact ⟨rfl,armTimer_view_congr ha _⟩

private theorem addArrow_view (h : s₁.view = s₂.view) (bucket : Int) (x : AppendItem w) :
    (w.addArrow c s₁ bucket x).view = (w.addArrow c s₂ bucket x).view := by
  have hf := flushBucket_view_congr h c w.completeBatch bucket
  have ha := assign_view_congr (openBatch_view_congr hf bucket ()) bucket ⟨[],(),0⟩ x 0
  exact flushBucket_view_congr ha c w.completeBatch bucket

theorem add_view (h : s₁.view = s₂.view) (front : AppendFront) (x : AppendItem w) :
    (w.add c front s₁ x).map (fun r => (r.1, r.2.view)) = (w.add c front s₂ x).map (fun r => (r.1, r.2.view)) := by
  unfold add
  split
  · rfl
  · simpa [complete,view] using h
  rename_i bucket front' _
  split
  · simp [addArrow_view h]
  have hs := availableBatch_view (c := c) h front' bucket x
  cases h₁ : w.availableBatch c front' s₁ bucket x with
  | none =>
    cases h₂ : w.availableBatch c front' s₂ bucket x with
    | none => rfl
    | some r₂ => simp [h₁,h₂] at hs
  | some r₁ =>
    cases h₂ : w.availableBatch c front' s₂ bucket x with
    | none => simp [h₁,h₂] at hs
    | some r₂ =>
      obtain ⟨f₁,t₁,slot₁⟩ := r₁
      obtain ⟨f₂,t₂,slot₂⟩ := r₂
      simp only [h₁,h₂,map_some,some.injEq,Prod.mk.injEq] at hs
      obtain ⟨rfl,hv,rfl⟩ := hs
      cases slot₁ with
      | none => simp [hv]
      | some slot =>
        obtain ⟨hf,hv'⟩ := addToBatch_view (c := c) hv f₁ slot.1 slot.2 x
        simp [hf,hv']
end Laws

def loop (w : AppendWriter) (hw : w.Created) : WriterLoop (AppendItem w) Unit AppendFront where
  config := w.loopConfig hw
  targets := w.targets
  completeBatch := w.completeBatch
  completeBatch_items _ _ _ := completeItems_items
  front := {}
  add := w.add (w.loopConfig hw)
  add_ops := add_ops rfl
  add_view front s x := add_view (show s.view = (LoopState.ofView s.view).view from rfl) front x
end AppendWriter
end FlussGo
