import FlussGo.Row.IndexedSize
import FlussGo.Writer.Limits
/-!
# From batches to requests

`executeBatch` encodes a batch before it hands a request to the backend. A batch that does not encode
fails its bucket although nothing was sent.
-/
namespace FlussGo
open Outcome List System.Reachable LoopState Bool Function
section Arrow
/-- The IPC writer: the payload of a batch of rows. -/
abbrev ArrowWriter := ArrowCompressionType → List Row → Bytes

def arrowRecordCount (rows : List Row) : Go Nat :=
  if 2 ^ 31 - 1 < rows.length then failf .malformedRecordBatch "too many Arrow rows" else .ok rows.length

def changeBytes : List ChangeType → Go Bytes
  | [] => .ok []
  | change :: changes => do
    change.validate
    let rest ← changeBytes changes
    return change.toByte :: rest

def arrowChanges (appendOnly : Bool) (changes : List ChangeType) (count : Nat) : Go Bytes :=
  if appendOnly then
    if changes.length ≠ 0 ∧ changes.length ≠ count then failf .malformedRecordBatch "Arrow change count mismatch"
    else
      match changes.find? (· ≠ .append) with
      | some change => failf .invalidRow s!"append-only Arrow batch contains {change.toByte}"
      | none => .ok []
  else if changes.length ≠ count then failf .malformedRecordBatch "Arrow change count mismatch"
  else changeBytes changes

def encodeArrowPayload (writer : ArrowWriter) (rows : List Row) (compression : ArrowCompressionType) : Go Bytes :=
  if rows.isEmpty then .ok []
  else
    match compression with
    | .none => .ok (writer .none rows)
    | .lz4 => .ok (writer .lz4 rows)
    | .zstd => .ok (writer .zstd rows)
    | .other code => failf .invalidConfig s!"unsupported Arrow compression {code}"
/-- The part of an Arrow batch that its checksum covers. -/
def arrowBatchTail (b : LogBatch) (count : Nat) (body : Bytes) : Bytes :=
  littleBytes 2 b.schemaID.toNat ++ (if b.appendOnly then 1 else 0) ::
    (littleBytes 4 (count - 1) ++ (littleBytes 8 b.writerID.toNat ++
      (littleBytes 4 b.batchSequence.toNat ++ (littleBytes 4 count ++ body))))
/-- `EncodeArrowLogBatch`; `b` has the header fields, which Arrow and row batches share. -/
def encodeArrowLogBatch (writer : ArrowWriter) (b : LogBatch) (rows : List Row) (changes : List ChangeType)
    (compression : ArrowCompressionType) : Go Bytes :=
  if b.magic ≠ 0 ∧ b.magic ≠ 1 then failf .malformedRecordBatch s!"unsupported log magic {b.magic}"
  else do
    let count ← arrowRecordCount rows
    let changes ← arrowChanges b.appendOnly changes count
    let payload ← encodeArrowPayload writer rows compression
    if count = 0 ∧ payload.length ≠ 0 then failf .malformedRecordBatch "empty Arrow batch has payload"
    else
      let headerSize := if b.magic = 1 then logBatchV1HeaderSize else logBatchV0HeaderSize
      if (maxRowBytes : Int) - headerSize - changes.length < payload.length then
        failf .malformedRecordBatch "Arrow batch exceeds limit"
      else return logBatchBytes b (arrowBatchTail b count (changes ++ payload))

private theorem changeBytes_of_valid {changes : List ChangeType} (h : AppendWriter.validateChanges changes = .ok ()) :
    ∃ bytes, changeBytes changes = .ok bytes ∧ bytes.length = changes.length := by
  induction changes with
  | nil => exact ⟨[],rfl,rfl⟩
  | cons change changes ih =>
    obtain ⟨hc,h⟩ := of_seq h
    obtain ⟨bytes,hb,hl⟩ := ih h
    refine ⟨change.toByte :: bytes,?_,by rw [length_cons,hl,length_cons]⟩
    rw [changeBytes,hc,bind_ok,hb]
    rfl

private theorem encodeArrowPayload_supported {writer : ArrowWriter} {rows : List Row}
    {compression : ArrowCompressionType} (h : ∀ code, compression ≠ .other code) :
    encodeArrowPayload writer rows compression = .ok (if rows.isEmpty then [] else writer compression rows) := by
  unfold encodeArrowPayload
  split
  · rfl
  · cases compression with
    | other code => exact absurd rfl (h code)
    | _ => rfl
end Arrow

namespace AppendWriter
variable {w : AppendWriter} {writer : ArrowWriter} {items : List (AppendItem w)} {sequence : BitVec 32}

def encodeArrow (w : AppendWriter) (writer : ArrowWriter) (rows : List Row) (changes : List ChangeType)
    (sequence : BitVec 32) : Go Bytes :=
  let batch : LogBatch := {
    magic := 0, baseOffset := -1, schemaID := BitVec.ofInt 16 w.table.schemaID, appendOnly := false
    writerID := w.writerID, batchSequence := sequence, records := [] }
  encodeArrowLogBatch writer batch rows changes w.config.arrowCompressionType

def encodeItems (w : AppendWriter) (writer : ArrowWriter) (items : List (AppendItem w)) (sequence : BitVec 32) : Go Bytes :=
  match items with
  | [x] =>
    match x.arrow with
    | some rows => w.encodeArrow writer rows x.changes sequence
    | none => w.encodeBatch [x.row] sequence
  | items => w.encodeBatch (items.map (·.row)) sequence
/-- What the encoders demand of a batch beyond what was checked when its items were queued. -/
structure Encodable (w : AppendWriter) (writer : ArrowWriter) (items : List (AppendItem w)) : Prop where
  indexed : w.config.format = .indexed → ∀ x ∈ items, x.arrow = none → FitsIndexed w.table.schema x.row
  arrow : ∀ x ∈ items, ∀ rows, x.arrow = some rows → rows ≠ [] → rows.length ≤ 2 ^ 31 - 1 ∧
    logBatchV0HeaderSize + rows.length + (writer w.config.arrowCompressionType rows).length ≤ maxRowBytes

private theorem encodeRecords_isOk {schema : Schema} {compacted : Bool} {records : List Record}
    (hc : ∀ record ∈ records, record.change.validate = .ok ()) :
    (encodeRecords schema compacted records).isOk = true ↔
      ∀ record ∈ records, (encodeLogRow schema compacted record.value).isOk = true := by
  induction records with
  | nil => simp [encodeRecords,isOk]
  | cons record records ih =>
    rw [forall_mem_cons] at hc ⊢
    rw [← ih hc.2,encodeRecords,encodeRecord,hc.1]
    cases encodeLogRow schema compacted record.value <;> cases encodeRecords schema compacted records <;>
      simp [isOk]

private theorem encodeBatch_isOk (w : AppendWriter) (rows : List Row) (sequence : BitVec 32) :
    (w.encodeBatch rows sequence).isOk = true ↔
      ∀ row ∈ rows, (encodeLogRow w.table.schema w.config.format.compactedRows row).isOk = true := by
  have hc : ∀ record ∈ rows.map (fun row => ({ value := row, change := .append, offset := -1 } : Record)),
      record.change.validate = .ok () := by
    rw [forall_mem_map]
    exact fun row _ => rfl
  have hr := @encodeRecords_isOk w.table.schema w.config.format.compactedRows _ hc
  rw [forall_mem_map] at hr
  rw [← hr,encodeBatch,LogBatch.encodeRows,if_neg (by simp)]
  cases encodeRecords w.table.schema w.config.format.compactedRows
    (rows.map fun row => { value := row, change := .append, offset := -1 }) <;> simp [isOk]

private theorem encodeItems_rows (hr : ∀ x ∈ items, RowItem x) :
    w.encodeItems writer items sequence = w.encodeBatch (items.map (·.row)) sequence := by
  unfold encodeItems
  split
  next x =>
    rw [(hr x mem_cons_self).arrow]
    rfl
  · rfl

private theorem encodeItems_rows_isOk (hr : ∀ x ∈ items, RowItem x) :
    (w.encodeItems writer items sequence).isOk = true ↔ w.Encodable writer items := by
  rw [encodeItems_rows hr,encodeBatch_isOk,forall_mem_map]
  have ha : ∀ x ∈ items, ∀ rows, x.arrow ≠ some rows := by
    intro x hx rows hs
    rw [(hr x hx).arrow] at hs
    simp at hs
  by_cases hf : w.config.format = .indexed
  · rw [hf]
    constructor
    · exact fun h => ⟨fun _ x hx _ => (encodeIndexedRow_isOk (hr x hx).encodes).mp (h x hx),
        fun x hx rows hs => absurd hs (ha x hx rows)⟩
    · exact fun h x hx => (encodeIndexedRow_isOk (hr x hx).encodes).mpr (h.indexed hf x hx (hr x hx).arrow)
  · refine ⟨fun _ => ⟨fun h => absurd h hf,fun x hx rows hs => absurd hs (ha x hx rows)⟩,?_⟩
    intro _ x hx
    rw [LogFormat.compactedRows_of_ne hf]
    exact (hr x hx).encodes

private theorem encodeArrow_isOk {rows : List Row} {changes : List ChangeType} (hc : changes.length = rows.length)
    (hch : validateChanges changes = .ok ()) (hs : ∀ code, w.config.arrowCompressionType ≠ .other code) :
    (w.encodeArrow writer rows changes sequence).isOk = true ↔ (rows ≠ [] → rows.length ≤ 2 ^ 31 - 1 ∧
      logBatchV0HeaderSize + rows.length + (writer w.config.arrowCompressionType rows).length ≤ maxRowBytes) := by
  have hm := maxRowBytes_eq
  have hh : logBatchV0HeaderSize = 48 := rfl
  obtain ⟨bytes,hb,hl⟩ := changeBytes_of_valid hch
  rw [encodeArrow,encodeArrowLogBatch,if_neg (by simp),arrowRecordCount]
  by_cases hma : 2 ^ 31 - 1 < rows.length
  · rw [if_pos hma]
    refine ⟨fun h => by simp [isOk,failf] at h,fun h => ?_⟩
    have hne : rows ≠ [] := ne_nil_of_length_pos (by omega)
    have := (h hne).1
    omega
  rw [if_neg hma,bind_ok,arrowChanges,if_neg (by simp),if_neg (by simpa using hc),hb,bind_ok]
  rw [encodeArrowPayload_supported hs,bind_ok]
  dsimp only
  by_cases he : rows = []
  · subst he
    have hn : bytes.length = 0 := by rw [hl,hc]; rfl
    refine ⟨fun _ h => absurd rfl h,fun _ => ?_⟩
    rw [if_neg (by simp),if_neg (by simp [hn,hm,hh])]
    rfl
  have hpos : 0 < rows.length := length_pos_of_ne_nil he
  rw [if_neg (show ¬rows.isEmpty = true by simpa using he),if_neg (by omega)]
  have hmag : (if (0 : UInt8) = 1 then logBatchV1HeaderSize else logBatchV0HeaderSize) = 48 := by decide
  rw [hmag]
  split
  next hlo =>
    refine ⟨fun h => by simp [isOk,failf] at h,fun h => ?_⟩
    have := (h he).2
    omega
  · exact ⟨fun _ _ => ⟨by omega,by omega⟩,fun _ => rfl⟩

theorem encodeItems_isOk {batch : Batch (AppendItem w) Unit} (hw : w.Created) (hf : w.Formed batch) :
    (w.encodeItems writer batch.items sequence).isOk = true ↔ w.Encodable writer batch.items := by
  rcases hf with hr | ⟨x,hi,hx⟩
  · exact encodeItems_rows_isOk hr.items
  obtain ⟨rows,hs,hc⟩ := hx.arrow
  have he : w.encodeItems writer [x] sequence = w.encodeArrow writer rows x.changes sequence := by
    rw [encodeItems,hs]
  rw [hi,he,encodeArrow_isOk hc hx.changes hw.compression]
  constructor
  · intro h
    refine ⟨fun _ y hy hn => ?_,fun y hy rows' hr' => ?_⟩
    · rw [mem_singleton.mp hy,hs] at hn
      simp at hn
    · rw [mem_singleton.mp hy,hs] at hr'
      cases hr'
      exact h
  · exact fun h => h.arrow x mem_cons_self rows hs
end AppendWriter

namespace UpsertWriter
variable {w : UpsertWriter}
/-- What `KVBatch.Encode` demands of a batch. -/
def Encodable (w : UpsertWriter) (items : List (UpsertItem w)) : Prop :=
  kvBatchHeaderSize + (kvFrames (items.map (·.record))).length ≤ maxRowBytes

theorem encodeBatch_isOk (w : UpsertWriter) (checksum : Bytes → BitVec 32) (items : List (UpsertItem w))
    (sequence : BitVec 32) : (w.encodeBatch checksum items sequence).isOk = true ↔ w.Encodable items := by
  rw [isOk_iff,encodeBatch,Encodable]
  constructor
  · rintro ⟨encoded,h⟩
    obtain ⟨rfl,hmax⟩ := KVBatch.encode_eq_ok.mp h
    rwa [kvBatchBytes_length] at hmax
  · intro h
    exact ⟨_,KVBatch.encode_eq_ok.mpr ⟨rfl,by rw [kvBatchBytes_length]; exact h⟩⟩
end UpsertWriter

namespace LoopState
variable {ι τ : Type} {c : LoopConfig} {targets : ι → τ} {completeBatch : CompleteBatch ι τ} {s s' : LoopState ι τ}
/-- Batches may have been started, and no bucket has failed. -/
structure Grows (s s' : LoopState ι τ) : Prop where
  poisoned : s'.poisoned = s.poisoned
  started : s.started <+: s'.started

theorem Grows.refl (s : LoopState ι τ) : Grows s s := ⟨rfl,prefix_refl _⟩

theorem Grows.trans {s'' : LoopState ι τ} (h : Grows s s') (h' : Grows s' s'') : Grows s s'' :=
  ⟨h'.poisoned.trans h.poisoned,h.started.trans h'.started⟩

theorem Starts.grows (h : Starts c s s') : Grows s s' := by
  induction h with
  | refl => exact .refl _
  | start _ _ _ _ _ ih => exact ih.trans ⟨rfl,prefix_append _ _⟩

theorem flushBucket_grows (bucket : Int) (s : LoopState ι τ) : Grows s (s.flushBucket c completeBatch bucket).1 := by
  apply flushBucket_rule (P := Grows s) fun _ => .refl s
  · exact fun _ _ _ _ _ => ⟨rfl,prefix_refl _⟩
  · intro batch _ _ _
    have hd := (dispatch_starts (c := c) ((s.takeBatch bucket batch).enqueue bucket batch)).grows
    exact ⟨hd.poisoned,hd.started⟩

theorem queueAll_grows (s : LoopState ι τ) : Grows s (s.queueAll c completeBatch).1 :=
  queueAll_rule (P := Grows s) ⟨rfl,prefix_refl _⟩ fun l bucket hl => hl.trans (flushBucket_grows bucket l)

theorem ops_grows {xs : List ι} (h : Ops c targets completeBatch s xs s') : Grows s s' := by
  induction h with
  | refl => exact .refl _
  | flush bucket _ ih => exact ih.trans (flushBucket_grows bucket _)
  | openBatch _ _ _ _ ih | timer _ _ ih | assign _ _ _ _ _ ih | reject _ _ ih => exact ih.trans ⟨rfl,prefix_refl _⟩

theorem handleCompletion_poisoned (index : Nat) (st : Started ι τ) (result : AttemptResult) (s : LoopState ι τ) :
    (s.handleCompletion c completeBatch index st result).poisoned =
        (result.err.elim s.poisoned fun cause => update s.poisoned st.bucket (some cause)) ∧
      s.started <+: (s.handleCompletion c completeBatch index st result).started := by
  have hd : ∀ l : LoopState ι τ, Grows l (dispatch c l) := fun l => (dispatch_starts l).grows
  unfold handleCompletion
  cases result.err with
  | none =>
    have hg := hd (((s.endExecution index st.bucket).advanceSequence st.bucket).complete
      (completeBatch st.batch st.bucket result))
    exact ⟨hg.poisoned,hg.started⟩
  | some cause =>
    dsimp only
    generalize completeBatch st.batch st.bucket { err := some cause } ++ _ = results
    have hg := hd (((s.endExecution index st.bucket).poison st.bucket cause).complete results)
    exact ⟨hg.poisoned,hg.started⟩

theorem RunInv.executing_started (h : RunInv c s) {st : Started ι τ} (hst : st ∈ s.executing) : st ∈ s.started :=
  (mem_filter.mp (mem_of_getLast? (h.executing_last st hst))).1
end LoopState
/-- A step of the loop, or a goroutine that hands the request for its batch to the backend. -/
inductive RequestEvent (ι : Type) where
  | loop (e : LoopEvent ι)
  | hand (index : Nat)

structure RequestState (ι τ φ : Type) where
  writer : WriterState ι τ φ
  handed : List (Started ι τ) := []

namespace WriterLoop
variable {ι τ φ : Type} {w : WriterLoop ι τ φ} {A : ι → Prop} {encode : Started ι τ → Go Bytes}
/-- `executeBatch`: a batch that encodes is completed after its request was handed over, one that does
not is completed with the error of the encoder. -/
def mayComplete (encode : Started ι τ → Go Bytes) (handed : List (Started ι τ)) (st : Started ι τ)
    (result : AttemptResult) : Prop :=
  match encode st with
  | .ok _ => st ∈ handed
  | .err error => result = { err := some error }
  | .panic _ => False
/-- The loop together with what its goroutines do. -/
def requests (w : WriterLoop ι τ φ) (A : ι → Prop) (encode : Started ι τ → Go Bytes) :
    System (RequestState ι τ φ) (RequestEvent ι) where
  init s := s = { writer := w.initial }
  step s e s' :=
    match e with
    | .loop e => (w.admitting A).step s.writer e s'.writer ∧ s'.handed = s.handed ∧
        ∀ index result st, e = .completion index result → s.writer.loop.executing[index]? = some st →
          mayComplete encode s.handed st result
    | .hand index => s'.writer = s.writer ∧ ∃ st, s.writer.loop.executing[index]? = some st ∧
        (encode st).isOk = true ∧ s'.handed = s.handed ++ [st]

theorem requests_reachable {s : RequestState ι τ φ} (h : (w.requests A encode).Reachable s) :
    (w.admitting A).Reachable s.writer := by
  refine map (U := w.admitting A) RequestState.writer ?_ ?_ h
  · rintro s rfl
    rfl
  · intro s e s' _ hs
    cases e with
    | loop e => exact .inr ⟨e,hs.1⟩
    | hand index => exact .inl hs.1

theorem step_poisoned {s s' : WriterState ι τ φ} {e : LoopEvent ι} (h : w.step s e = some s') :
    s.loop.started <+: s'.loop.started ∧ ∀ b cause, s'.loop.poisoned b = some cause →
      s.loop.poisoned b = some cause ∨ ∃ index result st, e = .completion index result ∧
        s.loop.executing[index]? = some st ∧ st.bucket = b ∧ result.err = some cause := by
  have hgr : s.loop.Grows s'.loop → s.loop.started <+: s'.loop.started ∧ ∀ b cause,
      s'.loop.poisoned b = some cause → s.loop.poisoned b = some cause ∨ ∃ index result st,
        e = .completion index result ∧ s.loop.executing[index]? = some st ∧ st.bucket = b ∧ result.err = some cause :=
    fun hg => ⟨hg.started,fun b cause hb => .inl (by rwa [hg.poisoned] at hb)⟩
  have hc : ∀ index st result, s.loop.executing[index]? = some st → ∀ b cause,
      (s.loop.handleCompletion w.config w.completeBatch index st result).poisoned b = some cause →
      s.loop.poisoned b = some cause ∨ (st.bucket = b ∧ result.err = some cause) := by
    intro index st result _ b cause hb
    rw [(handleCompletion_poisoned index st result s.loop).1] at hb
    cases herr : result.err with
    | none =>
      rw [herr] at hb
      exact .inl hb
    | some cause' =>
      rw [herr] at hb
      by_cases heq : b = st.bucket
      · subst heq
        simp only [Option.elim_some,update_self] at hb
        exact .inr ⟨rfl,hb⟩
      · simp only [Option.elim_some,update_of_ne heq] at hb
        exact .inl hb
  cases step_cases h with
  | canceled x err hm => exact hgr ⟨rfl,prefix_refl _⟩
  | add x hm hadd => exact hgr (ops_grows (w.add_ops hadd))
  | flush | close => exact hgr (by simpa using queueAll_grows s.loop)
  | timer hm ha => exact hgr (queueAll_grows s.loop)
  | @completion index st result hm hst =>
    refine ⟨(handleCompletion_poisoned index st result s.loop).2,fun b cause hb => ?_⟩
    exact (hc index st result hst b cause hb).imp_right fun hb => ⟨index,result,st,rfl,hst,hb⟩
  | @drain index st kind errors result hm hst =>
    rw [settle_loop]
    refine ⟨(handleCompletion_poisoned index st result s.loop).2,fun b cause hb => ?_⟩
    exact (hc index st result hst b cause hb).imp_right fun hb => ⟨index,result,st,rfl,hst,hb⟩
  | finish hm => exact hgr (.refl _)

theorem poisoned_cause {s : RequestState ι τ φ} (h : (w.requests A encode).Reachable s) :
    ∀ b cause, s.writer.loop.poisoned b = some cause → ∃ st ∈ s.writer.loop.started, st.bucket = b ∧
      (st ∈ s.handed ∨ encode st = .err cause) := by
  refine invariant (P := fun s : RequestState ι τ φ => ∀ b cause,
    s.writer.loop.poisoned b = some cause → ∃ st ∈ s.writer.loop.started, st.bucket = b ∧
      (st ∈ s.handed ∨ encode st = .err cause)) ?_ ?_ h
  · rintro s rfl b cause hb
    simp [initial] at hb
  intro s e s' hr ih hste b cause hb
  cases e with
  | hand index =>
    obtain ⟨hw,st,_,_,hh⟩ := hste
    rw [hw] at hb ⊢
    obtain ⟨st',hst',hbu,hc⟩ := ih b cause hb
    refine ⟨st',hst',hbu,hc.imp_left fun hmem => ?_⟩
    rw [hh]
    exact mem_append_left _ hmem
  | loop e =>
    obtain ⟨hl,hh,hco⟩ := hste
    obtain ⟨hs,hp⟩ := step_poisoned hl.1
    rw [hh]
    rcases hp b cause hb with hb | ⟨index,result,st,rfl,hst,rfl,herr⟩
    · obtain ⟨st',hst',hbu,hc⟩ := ih b cause hb
      exact ⟨st',hs.subset hst',hbu,hc⟩
    have hinv := reachable_inv (admitting_reachable (requests_reachable hr))
    have hmem := hinv.run.executing_started (mem_of_getElem? hst)
    refine ⟨st,hs.subset hmem,rfl,?_⟩
    have hmay := hco index result st rfl hst
    unfold mayComplete at hmay
    split at hmay
    · exact .inl hmay
    next error he =>
      rw [hmay] at herr
      exact .inr (by rw [he,Option.some.inj herr])
    · exact hmay.elim
end WriterLoop
/-- A batch that a loop forms is encoded exactly when it is encodable, and if all batches of a run are,
a bucket fails only after a request for it was handed to the backend. -/
theorem writers_fail_after_sending (writer : ArrowWriter) (checksum : Bytes → BitVec 32) (a : AppendWriter)
    (ha : a.Created) (u : UpsertWriter) (hu : u.Created) :
    (∀ s, ((a.loop ha).requests a.Admitted fun st => a.encodeItems writer st.batch.items st.sequence).Reachable s →
      (∀ b, ∀ batch ∈ s.writer.loop.formed b, ∀ sequence,
        (a.encodeItems writer batch.items sequence).isOk = true ↔ a.Encodable writer batch.items) ∧
      ((∀ b, ∀ batch ∈ s.writer.loop.formed b, a.Encodable writer batch.items) →
        ∀ b cause, s.writer.loop.poisoned b = some cause → ∃ st ∈ s.handed, st.bucket = b)) ∧
    ∀ s, ((u.loop hu).requests u.Admitted fun st => u.encodeBatch checksum st.batch.items st.sequence).Reachable s →
      (∀ b, ∀ batch ∈ s.writer.loop.formed b, ∀ sequence,
        (u.encodeBatch checksum batch.items sequence).isOk = true ↔ u.Encodable batch.items) ∧
      ((∀ b, ∀ batch ∈ s.writer.loop.formed b, u.Encodable batch.items) →
        ∀ b cause, s.writer.loop.poisoned b = some cause → ∃ st ∈ s.handed, st.bucket = b) := by
  constructor
  · intro s hs
    have hadmitted := WriterLoop.requests_reachable hs
    have hinv := WriterLoop.reachable_inv (WriterLoop.admitting_reachable hadmitted)
    have hencode : ∀ b, ∀ batch ∈ s.writer.loop.formed b, ∀ sequence,
        (a.encodeItems writer batch.items sequence).isOk = true ↔ a.Encodable writer batch.items :=
      fun b batch hbatch sequence => AppendWriter.encodeItems_isOk ha (AppendWriter.formed_of_reachable ha hadmitted hbatch)
    refine ⟨hencode,fun hall b cause hb => ?_⟩
    obtain ⟨st,hst,hbucket,hhanded | herr⟩ := WriterLoop.poisoned_cause hs b cause hb
    · exact ⟨st,hhanded,hbucket⟩
    · have hformed := hinv.started_formed hst
      have hok := (hencode _ _ hformed st.sequence).mpr (hall _ _ hformed)
      rw [herr] at hok
      simp [Outcome.isOk] at hok
  · intro s hs
    have hinv := WriterLoop.reachable_inv (WriterLoop.admitting_reachable (WriterLoop.requests_reachable hs))
    refine ⟨fun b batch _ sequence => u.encodeBatch_isOk checksum batch.items sequence,fun hall b cause hb => ?_⟩
    obtain ⟨st,hst,hbucket,hhanded | herr⟩ := WriterLoop.poisoned_cause hs b cause hb
    · exact ⟨st,hhanded,hbucket⟩
    · have hok := (u.encodeBatch_isOk checksum st.batch.items st.sequence).mpr (hall _ _ (hinv.started_formed hst))
      rw [herr] at hok
      simp [Outcome.isOk] at hok

section Runs
variable {ι τ φ : Type} {w : WriterLoop ι τ φ} {A : ι → Prop} {encode : Started ι τ → Go Bytes}

def Mode.isRunning : Mode → Bool
  | .running => true
  | _ => false

private theorem requests_of_items (encode : Started ι τ → Go Bytes) (es : List (LoopEvent ι))
    (p : WriterState ι τ φ → Started ι τ → Bool) (hes : ∀ e ∈ es, ∃ x, e = .item x none ∧ A x)
    (h : (es.foldlM w.step w.initial).any (fun s => s.mode.isRunning && s.loop.executing[0]?.any (p s)) = true) :
    ∃ s st, (w.requests A encode).Reachable { writer := s } ∧ s.mode = .running ∧ s.loop.executing[0]? = some st ∧
      p s st = true := by
  let items : System (WriterState ι τ φ) (LoopEvent ι) :=
    ⟨fun s => s = w.initial,fun s e s' => w.step s e = some s' ∧ ∃ x,e = .item x none ∧ A x⟩
  obtain ⟨s,hs,hp⟩ := of_foldlM_any (T := items) w.step es _ rfl
    (fun _ _ _ he hste => ⟨hste,hes _ he⟩) h
  have hr : (w.requests A encode).Reachable { writer := s } := by
    refine map (U := w.requests A encode) (fun s => { writer := s }) ?_ ?_ hs
    · rintro s rfl
      rfl
    · rintro s _ s' _ ⟨hste,x,rfl,hx⟩
      refine .inr ⟨.loop (.item x none),⟨hste,?_⟩,rfl,?_⟩
      · rintro x' canceled heq
        exact (LoopEvent.item.inj heq).1 ▸ hx
      · simp
  rw [and_eq_true] at hp
  have hmo : s.mode = .running := by
    cases hm : s.mode with
    | running => rfl
    | _ => simp [hm,Mode.isRunning] at hp
  obtain ⟨st,hst,hpst⟩ := (Option.any_eq_true _ _).mp hp.2
  exact ⟨s,st,hr,hmo,hst,hpst⟩

private theorem requests_complete {s : RequestState ι τ φ} {st : Started ι τ} (result : AttemptResult)
    (h : (w.requests A encode).Reachable s) (hm : s.writer.mode = .running)
    (hst : s.writer.loop.executing[0]? = some st) (hmay : WriterLoop.mayComplete encode s.handed st result) :
    ∃ s', (w.requests A encode).Reachable s' ∧ s'.handed = s.handed ∧
      s'.writer.loop = s.writer.loop.handleCompletion w.config w.completeBatch 0 st result := by
  refine ⟨⟨{ s.writer with loop := s.writer.loop.handleCompletion w.config w.completeBatch 0 st result },s.handed⟩,
    h.step (e := .loop (.completion 0 result)) ⟨⟨?_,?_⟩,rfl,?_⟩,rfl,rfl⟩
  · simp [WriterLoop.step,hst,hm]
  · simp
  · intro index result' st' heq hst'
    obtain ⟨rfl,rfl⟩ := LoopEvent.completion.inj heq
    rw [hst] at hst'
    exact Option.some.inj hst' ▸ hmay
end Runs
/-- A table of letters, whose indexed rows have one byte for a letter. -/
def letterWriter : AppendWriter := { numberWriter none { maxBatchRecords := 1, format := .indexed } with
  table := {
    id := 9, schemaID := 0, path := ⟨"shop","numbers"⟩, kind := .log
    schema := { columns := [fieldColumn { name := "letter", type := { root := .named .char, length := 1 } }] } } }

theorem letterWriter_created : letterWriter.Created := by
  refine ⟨numberBackend,letterWriter.table,
    [some (withAppendBatchLimits 1048576 1), some (withAppendLogFormat .indexed)],?_,rfl⟩
  intro option ho
  rcases mem_cons.mp ho with h | h
  · cases h
    exact .batchLimits 1048576 1
  · obtain rfl := Option.some.inj (mem_singleton.mp h)
    exact .logFormat .indexed

def lettersItem : AppendItem letterWriter where
  row := [.string [97, 98]]
  size := 9
  future := 0
  bucket_mem := by simp

theorem writers_fail_after_sending_number : ∃ s,
    ((singleWriter.loop singleWriter_created).requests singleWriter.Admitted
      fun st => singleWriter.encodeItems (fun _ _ => []) st.batch.items st.sequence).Reachable s ∧
    s.writer.loop.poisoned 0 ≠ none ∧ ∃ st ∈ s.handed, st.bucket = 0 := by
  let w := singleWriter.loop singleWriter_created
  let encode (st : Started (AppendItem singleWriter) Unit) := singleWriter.encodeItems (fun _ _ => []) st.batch.items st.sequence
  let result : AttemptResult := { err := some (newError "request timed out") }
  obtain ⟨s,st,hs,hmode,hst,hp⟩ := requests_of_items (w := w) (A := singleWriter.Admitted) encode
    [.item (numberItem singleWriter 0) none] (fun s st => st.bucket == 0 && (encode st).isOk &&
      ((s.loop.handleCompletion w.config w.completeBatch 0 st result).formed 0).all (·.items.all (·.arrow.isNone)))
    (fun e he => ⟨_,mem_singleton.mp he,.inl ⟨[.int32 1],0,rfl⟩⟩) (by decide +kernel)
  rw [and_eq_true,and_eq_true,beq_iff_eq] at hp
  obtain ⟨⟨hbucket,hok⟩,hrows⟩ := hp
  have hhand : (w.requests singleWriter.Admitted encode).Reachable { writer := s, handed := [st] } :=
    hs.step (e := .hand 0) ⟨rfl,st,hst,hok,rfl⟩
  obtain ⟨encoded,hencoded⟩ := isOk_iff.mp hok
  obtain ⟨s',hs',_,hloop⟩ := requests_complete result hhand hmode hst
    (by simp only [WriterLoop.mayComplete,hencoded,mem_singleton])
  have hpoisoned : s'.writer.loop.poisoned 0 = result.err := by
    rw [hloop,(LoopState.handleCompletion_poisoned 0 st _ _).1,hbucket]
    simp [result]
  have hinv := WriterLoop.reachable_inv (WriterLoop.admitting_reachable (WriterLoop.requests_reachable hs'))
  -- all items of the run are rows: those of bucket 0 by evaluation, and no other bucket has items
  have hnone : ∀ b, ∀ batch ∈ s'.writer.loop.formed b, ∀ x ∈ batch.items, x.arrow = none := by
    intro b batch hbatch x hx
    by_cases hb : b = 0
    · subst hb
      rw [hloop] at hbatch
      simpa using all_eq_true.mp (all_eq_true.mp hrows batch hbatch) x hx
    · have hassigned := hinv.front.assigned_eq b
      rw [hinv.front.outside b (fun hmem => hb (mem_singleton.mp hmem))] at hassigned
      have hempty := (append_eq_nil_iff.mp hassigned.symm).1
      rw [flatMap_eq_nil_iff.mp hempty batch hbatch] at hx
      simp at hx
  obtain ⟨st',hst',hbucket'⟩ := ((writers_fail_after_sending (fun _ _ => []) castagnoli singleWriter singleWriter_created
    numberKeyWriter numberKeyWriter_created).1 s' hs').2 (fun b batch hbatch => ⟨fun h => absurd h (by decide),
      fun x hx rows hrows => by simp [hnone b batch hbatch x hx] at hrows⟩) 0 _ hpoisoned
  exact ⟨s',hs',by simp [hpoisoned,result],st',hst',hbucket'⟩
/-- A CHAR(1) column takes two letters when they are queued, and not when they are encoded. -/
theorem letters_fail_unsent : ∃ s,
    ((letterWriter.loop letterWriter_created).requests letterWriter.Admitted
      fun st => letterWriter.encodeItems (fun _ _ => []) st.batch.items st.sequence).Reachable s ∧
    s.writer.loop.poisoned 0 ≠ none ∧ s.handed = [] := by
  let encode (st : Started (AppendItem letterWriter) Unit) := letterWriter.encodeItems (fun _ _ => []) st.batch.items st.sequence
  obtain ⟨s,st,hs,hmode,hst,hp⟩ := requests_of_items (w := letterWriter.loop letterWriter_created)
    (A := letterWriter.Admitted) encode [.item lettersItem none] (fun _ st => st.bucket == 0 && (encode st).isErr)
    (fun e he => ⟨_,mem_singleton.mp he,.inl ⟨[.string [97, 98]],0,rfl⟩⟩) (by decide +kernel)
  rw [and_eq_true,beq_iff_eq] at hp
  obtain ⟨error,herror⟩ := isErr_iff.mp hp.2
  obtain ⟨s',hs',hhanded,hloop⟩ := requests_complete { err := some error } hs hmode hst
    (by simp only [WriterLoop.mayComplete,herror])
  refine ⟨s',hs',?_,hhanded⟩
  rw [hloop,(LoopState.handleCompletion_poisoned 0 st _ _).1,hp.1]
  simp
end FlussGo
