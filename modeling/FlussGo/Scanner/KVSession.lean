import FlussGo.Scanner.Fetched
import FlussGo.Scanner.Poll
/-!
# KV scan sessions

`pollKVSession` of `batch_scanner.go` counts an answer before it decodes it: a poll that fails in between has
used up its batch.
-/
namespace FlussGo
open Outcome List
/-- The row at a position of a value batch, and the position after it. -/
def decodeValueRecord (resolve : TablePath → Int → Except GoError Schema) (table : Table) (encoded : Bytes)
    (position : Nat) : Go (Row × Nat) :=
  if encoded.length < position + 6 then failf .malformedRecordBatch "truncated value record"
  else do
    let size ← readLittle 4 encoded position
    if size < 2 ∨ encoded.length < position + 4 + size then failf .malformedRecordBatch "invalid value record length"
    else do
      let schemaID ← readInt16 encoded (position + 4)
      match resolve table.path schemaID with
      | .error e => .err (e.wrap s!"fgo: resolve value schema {schemaID}: ")
      | .ok schema => do
        let payload ← subslice encoded (position + 6) (position + 4 + size)
        let row ← decodeCompactedRow schema payload
        let row ← evolveRow schema table.schema row
        return (row, position + 4 + size)
/-- The next `count` rows, of which the first is the `k`-th of the batch. -/
def decodeValueRecords (resolver : SchemaResolver) (table : Table) (encoded : Bytes) : Nat → Nat → Nat → Go (List Row × Nat)
  | 0, _, position => .ok ([], position)
  | count + 1, k, position => do
    let (row, next) ← decodeValueRecord (resolver k) table encoded position
    let (rows, last) ← decodeValueRecords resolver table encoded count (k + 1) next
    return (row :: rows, last)

def decodeValueRecordBatchWithResolver (resolver : SchemaResolver) (table : Table) (encoded : Bytes) : Go (List Row) :=
  if encoded.length < 9 then failf .malformedRecordBatch "invalid value batch header"
  else do
    let length ← readLittle 4 encoded 0
    let magic ← byteAt encoded 4
    let count ← readLittle 4 encoded 5
    if length ≠ encoded.length - 4 ∨ magic ≠ 0 then failf .malformedRecordBatch "invalid value batch header"
    else if (encoded.length - 9) / 6 < count then failf .malformedRecordBatch "invalid value record count"
    else do
      let (rows, position) ← decodeValueRecords resolver table encoded count 0 9
      if position ≠ encoded.length then failf .malformedRecordBatch "trailing value batch bytes" else return rows

structure KVSessionBatch where
  scannerID : Bytes
  hasMore : Bool
  records : Bytes
/-- The fields of a scanner that its polls change; the sequence is the pattern of an `int32`. -/
structure KVSession where
  scannerID : Bytes := []
  sequence : Nat := 0
  done : Bool := false

structure BatchScanner where
  table : Table
  projection : List Nat

namespace BatchScanner
variable (s : BatchScanner)

def projectRows (rows : List Row) : Go (List Row) :=
  if s.projection = [] then .ok rows else rows.mapM (projectValues · s.projection)

def sessionRows (resolver : SchemaResolver) (records : Bytes) : Go (List Row) :=
  (if records = [] then .ok [] else decodeValueRecordBatchWithResolver resolver s.table records) >>= s.projectRows
/-- The rows of the result and its `Done`, beside the session that the call leaves. -/
def pollKVSession (resolver : SchemaResolver) (response : Except GoError KVSessionBatch) (k : KVSession) :
    KVSession × Go (List Row × Bool) :=
  match response with
  | .error e => (k, .err e)
  | .ok batch =>
    if batch.scannerID = [] then
      if batch.hasMore = true ∨ batch.records ≠ [] ∨ k.scannerID ≠ [] then
        (k, failf .validation "KV scan response omitted scanner ID")
      else ({ k with done := true }, .ok ([], true))
    else if k.scannerID ≠ [] ∧ k.scannerID ≠ batch.scannerID then
      (k, failf .validation "KV scan response changed scanner ID")
    else
      let k := { k with scannerID := batch.scannerID, sequence := (k.sequence + 1) % 2 ^ 32 }
      match s.sessionRows resolver batch.records with
      | .ok rows => ({ k with done := k.done || !batch.hasMore }, .ok (rows, !batch.hasMore))
      | .err e => (k, .err e)
      | .panic p => (k, .panic p)

def poll (resolver : SchemaResolver) (response : Except GoError KVSessionBatch) (k : KVSession) :
    KVSession × Go (List Row × Bool) :=
  if k.done then (k, .ok ([], true)) else s.pollKVSession resolver response k
end BatchScanner
/-- What fails in one poll: the request, or the schema of the `k`-th record. -/
structure PollFaults where
  request : Option GoError := none
  schema : Nat → Option GoError := fun _ => none

def PollFaults.resolver (faults : PollFaults) (schemas : TablePath → Int → Except GoError Schema) : SchemaResolver :=
  fun k path id => match faults.schema k with
    | some e => .error e
    | none => schemas path id
/-- A poll that gets an answer resolves every schema it asks for. -/
def PollFaults.Clean (faults : PollFaults) : Prop := faults.request = none → ∀ k, faults.schema k = none
/-- A session of the server, and its answer to a call after the last batch. -/
structure ServedSession where
  id : Bytes
  batches : List Bytes
  exhausted : GoError
  id_ne : id ≠ []
  count : batches.length < 2 ^ 31
/-- The session with the rows of the successful polls and the numbers of the batches that failed polls used up. -/
structure KVScan extends KVSession where
  returned : List Row := []
  lost : List Nat := []

def KVScan.record (h : KVScan) : KVSession × Go (List Row × Bool) → KVScan
  | (k, .ok (rows, _)) => { h with toKVSession := k, returned := h.returned ++ rows }
  | (k, _) => { h with toKVSession := k, lost := if k.sequence = h.sequence then h.lost else h.lost ++ [h.sequence] }

namespace ServedSession
variable (session : ServedSession)
/-- Call `k` is answered with batch `k`; an empty bucket has no session. -/
def answer (k : Nat) : Except GoError KVSessionBatch :=
  match session.batches[k]? with
  | some records => .ok ⟨session.id, k + 1 < session.batches.length, records⟩
  | none => if session.batches = [] then .ok ⟨[], false, []⟩ else .error session.exhausted

variable (s : BatchScanner) (schemas : TablePath → Int → Except GoError Schema)
/-- The rows of batch `k`; one that cannot be decoded has none. -/
def rows (k : Nat) : List Row :=
  match s.sessionRows (fun _ => schemas) (session.batches.getD k []) with
  | .ok rows => rows
  | _ => []

def poll (h : KVScan) (faults : PollFaults) : KVScan :=
  h.record (s.poll (faults.resolver schemas) (faults.request.elim (session.answer h.sequence) .error) h.toKVSession)

def scan (polls : List PollFaults) : KVScan := polls.foldl (session.poll s schemas) {}

def Decodable : Prop := ∀ records ∈ session.batches, (s.sessionRows (fun _ => schemas) records).isOk = true
/-- The batches before the sequence were returned, except the lost ones. -/
structure Covered (h : KVScan) : Prop where
  returned : h.returned = ((range h.sequence).filter (· ∉ h.lost)).flatMap (session.rows s schemas)
  bound : h.sequence ≤ session.batches.length
  lost : ∀ k ∈ h.lost, k < h.sequence
  done : h.done = true → h.sequence = session.batches.length
end ServedSession

section Sessions
variable {s : BatchScanner} {schemas : TablePath → Int → Except GoError Schema} {session : ServedSession}
  {faults : PollFaults} {table : Table} {encoded : Bytes}

private theorem resolver_of_decoded {k position : Nat} {r : Row × Nat}
    (h : decodeValueRecord (faults.resolver schemas k) table encoded position = .ok r) :
    faults.resolver schemas k = schemas := by
  unfold PollFaults.resolver at h ⊢
  cases hf : faults.schema k with
  | none => rfl
  | some e =>
    simp only [hf,decodeValueRecord] at h
    have h := (of_guard h).2
    obtain ⟨size,_,h⟩ := of_bind h
    have h := (of_guard h).2
    obtain ⟨word,_,h⟩ := of_bind h
    cases h

private theorem bind_ok_mono {α β : Type} {x y : Go α} {f g : α → Go β} (hx : ∀ a, x = .ok a → y = .ok a)
    (hf : ∀ a b, f a = .ok b → g a = .ok b) : ∀ b, (x >>= f) = .ok b → (y >>= g) = .ok b := by
  intro b h
  obtain ⟨a,ha,h⟩ := of_bind h
  exact bind_eq_ok.mpr ⟨a,hx a ha,hf a b h⟩

private theorem ite_ok_mono {α : Type} {c : Prop} [Decidable c] {x y z : Go α} (h : ∀ a, y = .ok a → z = .ok a) :
    ∀ a, (if c then x else y) = .ok a → (if c then x else z) = .ok a := by
  split
  · exact fun _ => id
  · exact h

private theorem decodeValueRecords_faultless (count k position : Nat) : ∀ r,
    decodeValueRecords (faults.resolver schemas) table encoded count k position = .ok r →
      decodeValueRecords (fun _ => schemas) table encoded count k position = .ok r := by
  induction count generalizing k position with
  | zero => exact fun _ => id
  | succ count ih =>
    rw [decodeValueRecords,decodeValueRecords]
    apply bind_ok_mono
    · intro r h
      rwa [resolver_of_decoded h] at h
    · intro r
      exact bind_ok_mono (ih (k + 1) r.2) fun _ _ => id

open BatchScanner
private theorem sessionRows_faultless (records : Bytes) : ∀ rows,
    s.sessionRows (faults.resolver schemas) records = .ok rows → s.sessionRows (fun _ => schemas) records = .ok rows := by
  unfold sessionRows decodeValueRecordBatchWithResolver
  refine bind_ok_mono ?_ fun _ _ => id
  apply ite_ok_mono
  apply ite_ok_mono
  refine bind_ok_mono (fun _ => id) fun length => bind_ok_mono (fun _ => id) fun magic => bind_ok_mono (fun _ => id) fun count => ?_
  apply ite_ok_mono
  apply ite_ok_mono
  exact bind_ok_mono (decodeValueRecords_faultless count 0 9) fun _ _ => id
/-- A poll changes nothing, ends a scan without session, or uses up the next batch. -/
private theorem poll_cases (h : KVScan) : session.poll s schemas h faults = h ∨
      session.batches = [] ∧ session.poll s schemas h faults = { h with done := true } ∨
      ∃ k : KVSession, h.sequence < session.batches.length ∧ k.sequence = h.sequence + 1 ∧
        (k.done = true → k.sequence = session.batches.length) ∧
        (session.poll s schemas h faults =
            { h with toKVSession := k, returned := h.returned ++ session.rows s schemas h.sequence } ∨
          session.poll s schemas h faults = { h with toKVSession := k, lost := h.lost ++ [h.sequence] } ∧
            faults.request = none ∧ ∃ records ∈ session.batches,
              (s.sessionRows (faults.resolver schemas) records).isOk = false) := by
  rw [ServedSession.poll,poll]
  cases hd : h.done with
  | true => simp [KVScan.record]
  | false =>
    rw [if_neg (by simp)]
    cases hf : faults.request with
    | some e => simp [pollKVSession,KVScan.record]
    | none =>
      rw [Option.elim_none,ServedSession.answer]
      cases hb : session.batches[h.sequence]? with
      | none =>
        by_cases he : session.batches = []
        · by_cases hs : h.scannerID = []
          · exact .inr (.inl ⟨he,by simp [he,hs,pollKVSession,KVScan.record]⟩)
          · exact .inl (by simp [he,hs,pollKVSession,KVScan.record,failf])
        · exact .inl (by simp [he,pollKVSession,KVScan.record])
      | some records =>
        obtain ⟨hlt,-⟩ := List.getElem?_eq_some_iff.mp hb
        by_cases hs : h.scannerID ≠ [] ∧ h.scannerID ≠ session.id
        · exact .inl (by simp [session.id_ne,hs,pollKVSession,KVScan.record,failf])
        have hw : (h.sequence + 1) % 2 ^ 32 = h.sequence + 1 := Nat.mod_eq_of_lt (by have := session.count; omega)
        simp only [pollKVSession,if_neg session.id_ne,if_neg hs,hw]
        refine .inr (.inr ?_)
        cases hrows : s.sessionRows (faults.resolver schemas) records with
        | ok rows =>
          refine ⟨⟨session.id,h.sequence + 1,h.done || !decide (h.sequence + 1 < session.batches.length)⟩,hlt,rfl,?_,.inl ?_⟩
          · simp only [hd,Bool.false_or,Bool.not_eq_true',decide_eq_false_iff_not]
            omega
          · rw [ServedSession.rows,List.getD_eq_getElem?_getD,hb,Option.getD_some,sessionRows_faultless records rows hrows,
              KVScan.record]
        | _ => exact ⟨⟨session.id,h.sequence + 1,h.done⟩,hlt,rfl,by simp [hd],
            .inr ⟨by simp [KVScan.record],trivial,records,mem_of_getElem? hb,by rw [hrows]; rfl⟩⟩

theorem ServedSession.Covered.poll {h : KVScan} (hc : session.Covered s schemas h) :
    session.Covered s schemas (session.poll s schemas h faults) := by
  have hlt : h.sequence ∉ h.lost := fun hm => (hc.lost _ hm).false
  obtain heq | ⟨hb,heq⟩ | ⟨k,hk,hs,hd,heq | ⟨heq,-⟩⟩ := @poll_cases s schemas session faults h <;> rw [heq]
  · exact hc
  · exact { hc with done := fun _ => by have := hc.bound; simp_all }
  · refine ⟨?_,hs.trans_le hk,fun j hj => hs ▸ (hc.lost j hj).trans (Nat.lt_succ_self _),hd⟩
    rw [hs,range_succ,filter_append,flatMap_append,hc.returned]
    simp [hlt]
  have hf : (range h.sequence).filter (· ∉ h.lost ++ [h.sequence]) = (range h.sequence).filter (· ∉ h.lost) :=
    filter_congr fun j hj => by simp [(mem_range.mp hj).ne]
  refine ⟨?_,hs.trans_le hk,fun j hj => ?_,hd⟩
  · dsimp only
    rw [hs,range_succ,filter_append,flatMap_append,hc.returned,hf]
    simp
  · rcases mem_append.mp hj with hj | hj
    · exact hs ▸ (hc.lost j hj).trans (Nat.lt_succ_self _)
    · simp_all

theorem ServedSession.covered (polls : List PollFaults) : session.Covered s schemas (session.scan s schemas polls) := by
  refine foldlRecOn polls _ ⟨by simp,by simp,by simp,by simp⟩ ?_
  intro h hc faults _
  exact hc.poll

theorem ServedSession.lost_eq_nil {polls : List PollFaults} (hp : ∀ faults ∈ polls, faults.Clean)
    (hb : session.Decodable s schemas) : (session.scan s schemas polls).lost = [] := by
  refine foldlRecOn (motive := fun h : KVScan => h.lost = []) polls _ rfl ?_
  intro h hl faults hf
  obtain heq | ⟨-,heq⟩ | ⟨k,-,-,-,heq | ⟨-,hr,records,hmem,hrows⟩⟩ := @poll_cases s schemas session faults h
  · rwa [heq]
  · rwa [heq]
  · rwa [heq]
  have hs : faults.resolver schemas = fun _ => schemas := by
    funext k path id
    rw [PollFaults.resolver,hp faults hf hr k]
  rw [hs,hb records hmem] at hrows
  cases hrows
end Sessions
/-- The polls return the batches in order, except those that failed polls have used up. There are none when every
batch decodes and no poll that gets an answer fails to resolve a schema. -/
theorem kvSession_returned (s : BatchScanner) (schemas : TablePath → Int → Except GoError Schema) (session : ServedSession)
    (polls : List PollFaults) :
    let h := session.scan s schemas polls
    h.returned = ((range h.sequence).filter (· ∉ h.lost)).flatMap (session.rows s schemas) ∧
      ((∀ faults ∈ polls, faults.Clean) → session.Decodable s schemas →
        h.returned = (range h.sequence).flatMap (session.rows s schemas)) ∧
      h.sequence ≤ session.batches.length ∧ (h.done = true → h.sequence = session.batches.length) := by
  intro h
  have hc : session.Covered s schemas h := session.covered polls
  refine ⟨hc.returned,fun hp hb => ?_,hc.bound,hc.done⟩
  rw [hc.returned,show h.lost = [] from session.lost_eq_nil hp hb]
  simp
/-- A session of two rows and one row. -/
def numberSession : ServedSession where
  id := [1]
  batches := [[21, 0, 0, 0, 0, 2, 0, 0, 0, 4, 0, 0, 0, 0, 0, 0, 1, 4, 0, 0, 0, 0, 0, 0, 2],
    [13, 0, 0, 0, 0, 1, 0, 0, 0, 4, 0, 0, 0, 0, 0, 0, 3]]
  exhausted := newError "unknown scanner"
  id_ne := by decide
  count := by decide
/-- The first request fails; the polls after it return every row. -/
theorem kvSession_returned_again :
    let s : BatchScanner := ⟨(numberWriter none {}).table, []⟩
    let h := numberSession.scan s (numberResolver 0) [{ request := some (newError "timeout") }, {}, {}]
    h.done = true ∧ h.returned = (range 2).flatMap (numberSession.rows s (numberResolver 0)) := by
  intro s h
  have hd : h.done = true ∧ h.sequence = 2 := by decide +kernel
  refine ⟨hd.1,?_⟩
  rw [← hd.2]
  refine (kvSession_returned s (numberResolver 0) numberSession _).2.1 ?_ ?_
  · simp [PollFaults.Clean]
  · unfold ServedSession.Decodable
    decide +kernel
/-- The context of the first poll ends while it waits for the schema: the next poll is the last and returns one row. -/
theorem kvSession_skips_a_batch :
    let s : BatchScanner := ⟨(numberWriter none {}).table, []⟩
    let schemas := numberResolver 0
    let h := numberSession.scan s schemas [{ schema := fun _ => some Sentinel.canceled.error }, {}]
    h.done = true ∧ ∀ n, h.returned ≠ (range n).flatMap (numberSession.rows s schemas) := by
  intro s schemas h
  have hl : h.done = true ∧ h.returned.length = 1 ∧ (numberSession.rows s schemas 0).length = 2 := by decide +kernel
  refine ⟨hl.1,fun n hn => ?_⟩
  cases n with
  | zero => simp [hn] at hl
  | succ n =>
    have := congrArg length hn
    rw [range_succ_eq_map,flatMap_cons,length_append] at this
    omega
end FlussGo
