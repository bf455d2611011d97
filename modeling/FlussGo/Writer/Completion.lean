import FlussGo.Row.EncodeSafety
import FlussGo.Writer.Closing
import FlussGo.Writer.Ordering
import Mathlib.Data.Int.Interval
/-!
# Every accepted write completes

Routing never panics on an item that was queued, so the loop can always take the next command.
-/
namespace FlussGo
open Outcome List
namespace AppendWriter
variable {w : AppendWriter} {c : LoopConfig} {front : AppendFront} {x : AppendItem w}
/-- The sticky bucket is one of the writer's. -/
def StickyValid (w : AppendWriter) (front : AppendFront) : Prop := front.stickyIndex < w.buckets.length
/-- No value of the row makes an encoder panic. -/
def RowEncoded (w : AppendWriter) (row : Row) : Prop :=
  ∀ p ∈ w.table.schema.columns.zip row, hazard .compacted true (logicalTypeForColumn p.1) p.2 = false
/-- A queued item has an explicit bucket, or a row that `Append` has validated and encoded. -/
theorem Admitted.routed (h : w.Admitted x) : x.bucket ≠ none ∨
    (x.row.length = w.table.schema.columns.length ∧ w.RowEncoded x.row) := by
  rcases h.kind with ⟨-,-,size,ha,-⟩ | ⟨-,⟨bucket,hb⟩,-⟩
  · unfold AppendWriter.append at ha
    have ha := (of_guard ha).2
    obtain ⟨hv,ha⟩ := of_seq ha
    obtain ⟨encoded,he,_⟩ := of_bind ha
    refine .inr ⟨?_,not_hazard_of_encodeRow he⟩
    exact ((w.table.schema.validateRow_eq_ok x.row).mp hv).2.length_eq.symm
  · exact .inl (by simp [hb])

theorem bucketKeyValues_sat {row : Row} (hlen : row.length = w.table.schema.columns.length)
    (hz : w.RowEncoded row) (names : List String) : (w.bucketKeyValues row names).Sat fun values =>
      ∀ p ∈ names.zip values, hazard .compacted true (logicalTypeForColumn (keyColumn w.table.schema p.1)) p.2 = false := by
  induction names with
  | nil => simp [bucketKeyValues]
  | cons name names ih =>
    rw [bucketKeyValues]
    cases hfind : w.table.schema.columns.findIdx? (·.name = name) with
    | none => exact sat_failf _ _ _
    | some position =>
      obtain ⟨hlt,hname,hbefore⟩ := findIdx?_eq_some_iff_getElem.mp hfind
      have hcolumn : w.table.schema.columnByName name = some w.table.schema.columns[position] :=
        find?_eq_some_iff_getElem.mpr ⟨hname,position,hlt,rfl,by simpa using hbefore⟩
      cases hv : row[position]? with
      | none =>
        rw [List.getElem?_eq_none_iff] at hv
        omega
      | some v =>
        simp only [hv]
        split
        · exact sat_failf _ _ _
        · refine ih.bind fun values _ hvalues => ?_
          refine forall_mem_cons.mpr ⟨?_,hvalues⟩
          rw [keyColumn,hcolumn]
          exact hz (_, v) (mem_of_getElem? (getElem?_zip_eq_some.mpr ⟨getElem?_eq_getElem hlt,hv⟩))

theorem keyBucket_sat {buckets : List Int} (hc : buckets.length < 2 ^ 32) (key : Bytes) :
    (keyBucket buckets key).Safe := by
  unfold keyBucket
  cases hp : flussBucket key buckets.length with
  | ok position =>
    rw [bind_ok,getElem?_eq_getElem (flussBucket_lt hc hp)]
    trivial
  | err e => trivial
  | panic p =>
    unfold flussBucket at hp
    split at hp <;> simp [failf] at hp

theorem bucketAt_sat {index : Nat} (h : index < w.buckets.length) : (w.bucketAt index).Safe := by
  rw [bucketAt,getElem?_eq_getElem h]
  trivial

theorem assignBucket_sat (hne : w.buckets ≠ []) (hcount : w.buckets.length < 2 ^ 32) (hx : w.Admitted x)
    (hfront : w.StickyValid front) : (w.assignBucket front x).Sat fun r => w.StickyValid r.2 := by
  have hpos := length_pos_iff.mpr hne
  unfold assignBucket
  cases hbucket : x.bucket with
  | some bucket => exact hfront
  | none =>
    obtain ⟨hlen,hz⟩ := hx.routed.resolve_left (by simp [hbucket])
    dsimp only
    split
    · refine (bucketKeyValues_sat hlen hz _).bind fun values _ hvalues => ?_
      refine (encodeKeyColumns_sat hvalues).bind fun key _ _ => ?_
      exact (keyBucket_sat hcount key).bind fun bucket _ _ => hfront
    · split
      · exact (bucketAt_sat (Nat.mod_lt _ hpos)).bind fun bucket _ _ => hfront
      split
      · exact (bucketAt_sat hpos).bind fun bucket _ _ => by simpa [StickyValid] using hpos
      · have : front.stickyIndex.toNat < w.buckets.length := by
          unfold StickyValid at hfront
          omega
        exact (bucketAt_sat this).bind fun bucket _ _ => hfront

theorem advanceSticky_valid (hf : w.StickyValid front) : w.StickyValid (w.advanceSticky front) := by
  unfold advanceSticky
  split
  · exact Int.emod_lt_of_pos _ (by omega)
  · exact hf

theorem advanceIfSticky_valid (hf : w.StickyValid front) : w.StickyValid (w.advanceIfSticky front) := by
  unfold advanceIfSticky
  split
  · exact advanceSticky_valid hf
  · exact hf

private theorem addToBatch_valid (hf : w.StickyValid front) (s : LoopState (AppendItem w) Unit) (bucket : Int)
    (batch : Batch (AppendItem w) Unit) (x : AppendItem w) :
    w.StickyValid (w.addToBatch c front s bucket batch x).1 := by
  unfold addToBatch
  dsimp only
  split
  · exact advanceIfSticky_valid hf
  · exact hf

private theorem availableBatch_some (hne : w.buckets ≠ []) (hc : w.buckets.length < 2 ^ 32) (hx : w.Admitted x)
    (hf : w.StickyValid front) (s : LoopState (AppendItem w) Unit) (bucket : Int) :
    ∃ front' s' slot, w.availableBatch c front s bucket x = some (front', s', slot) ∧ w.StickyValid front' := by
  unfold availableBatch
  dsimp only
  split
  · exact ⟨_,_,_,rfl,hf⟩
  split
  · exact ⟨_,_,_,rfl,hf⟩
  have hsat := assignBucket_sat hne hc hx (advanceSticky_valid hf)
  cases ha : w.assignBucket (w.advanceSticky front) x with
  | ok r =>
    rw [ha] at hsat
    exact ⟨_,_,_,rfl,hsat⟩
  | err e => exact ⟨_,_,_,rfl,advanceSticky_valid hf⟩
  | panic p => exact absurd ha (hsat.ne_panic p)

theorem add_some (hne : w.buckets ≠ []) (hc : w.buckets.length < 2 ^ 32) (hx : w.Admitted x)
    (hfr : w.StickyValid front) (s : LoopState (AppendItem w) Unit) :
    ∃ front' s', w.add c front s x = some (front', s') ∧ w.StickyValid front' := by
  have hsat := assignBucket_sat hne hc hx hfr
  unfold add
  cases ha : w.assignBucket front x with
  | ok r =>
    obtain ⟨bucket,front₁⟩ := r
    rw [ha] at hsat
    dsimp only
    split
    · exact ⟨_,_,rfl,hsat⟩
    obtain ⟨front₂,s₂,slot,hav,hf⟩ :=
      availableBatch_some (c := c) hne hc hx hsat s bucket
    rw [hav]
    cases slot with
    | none => exact ⟨_,_,rfl,hf⟩
    | some slot => exact ⟨_,_,rfl,addToBatch_valid hf s₂ slot.1 slot.2 x⟩
  | err e => exact ⟨_,_,rfl,hfr⟩
  | panic p => exact absurd ha (hsat.ne_panic p)

private theorem length_lt (hw : w.Created) (hids : ∀ b ∈ w.buckets, b ≤ maxInt32) : w.buckets.length < 2 ^ 32 := by
  have hsub : w.buckets.toFinset ⊆ Finset.Icc 0 maxInt32 := by
    intro b hb
    rw [mem_toFinset] at hb
    exact Finset.mem_Icc.mpr ⟨hw.bucket_nonneg b hb,hids b hb⟩
  have hc := Finset.card_le_card hsub
  rw [toFinset_card_of_nodup hw.facts.1,Int.card_Icc] at hc
  exact hc.trans_lt (by decide)

variable {maxBuffered : Int} {s : Admission (AppendItem w) Unit AppendFront}

private theorem queue_admitted (hw : w.Created) (hpos : 0 ≤ maxBuffered)
    (hr : ((w.loop hw).admission maxBuffered).Reachable s) {rest : List (Command (AppendItem w))}
    (hq : s.queue = .item x :: rest) : x ∈ s.admitted := by
  have hp := (Admission.accounted hpos hr).places
  have hmem : x ∈ (Admission.queueItems s.queue : Multiset (AppendItem w)) := by
    simp [hq,Admission.queueItems]
  have : x ∈ (s.admitted : Multiset (AppendItem w)) := by
    rw [hp]
    simp only [Multiset.mem_add]
    exact .inl (.inl (.inr hmem))
  exact this

private theorem reachable_sticky (hw : w.Created) (hc : w.buckets.length < 2 ^ 32) (hpos : 0 ≤ maxBuffered)
    (hr : ((w.loop hw).admission maxBuffered).Reachable s) :
    (∀ x ∈ s.admitted, w.Admitted x) → w.StickyValid s.writer.front := by
  refine System.Reachable.invariant
    (P := fun s => (∀ x ∈ s.admitted, w.Admitted x) → w.StickyValid s.writer.front) ?_ ?_ hr
  · rintro s rfl _
    have := length_pos_iff.mpr hw.facts.2.1
    show (-1 : Int) < w.buckets.length
    omega
  · rintro s _ s' hr hs hst
    have keep : ∀ {e : LoopEvent (AppendItem w)} {writer : WriterState (AppendItem w) Unit AppendFront},
        (∀ x, e ≠ .item x none) → (w.loop hw).step s.writer e = some writer → writer.front = s.writer.front := by
      intro e writer hne hst
      rcases WriterLoop.step_front hst with hf | ⟨x,_,rfl,_⟩
      · exact hf
      · exact absurd rfl (hne x)
    cases hst with
    | takeSlot _ _ => exact fun hq => hs fun x hx => hq x (mem_append_left _ hx)
    | @command command _ writer canceled hqu hst =>
      intro hq
      rcases WriterLoop.step_front hst with hf | ⟨x,loop,he,hadd⟩
      · exact hf ▸ hs hq
      cases command with
      | item y =>
        obtain ⟨rfl,rfl⟩ := LoopEvent.item.inj he
        have ha : y ∈ s.admitted := queue_admitted hw hpos hr hqu
        have hy := hq y ha
        obtain ⟨front',s',hadd',hv⟩ :=
          add_some (c := w.loopConfig hw) hw.facts.2.1 hc hy (hs hq) s.writer.loop
        obtain ⟨hf,_⟩ := Prod.mk.inj (Option.some.inj (hadd.symm.trans hadd'))
        show w.StickyValid writer.front
        rw [hf]
        exact hv
      | _ => simp [Command.event] at he
    | timer hst | completion hst | finish _ hst => exact fun hq => keep (by simp) hst ▸ hs hq
    | _ => exact hs

theorem routable (hw : w.Created) (hids : ∀ b ∈ w.buckets, b ≤ maxInt32) (hpos : 0 ≤ maxBuffered)
    {admitted : List (AppendItem w)} (hq : ∀ x ∈ admitted, w.Admitted x) :
    Admission.Routable (w.loop hw) maxBuffered admitted := by
  rintro s hr rfl x rest hqu
  have hc := length_lt hw hids
  obtain ⟨front',s',hadd,_⟩ := add_some (c := w.loopConfig hw) hw.facts.2.1 hc
    (hq x (queue_admitted hw hpos hr hqu)) (reachable_sticky hw hc hpos hr hq) s.writer.loop
  exact ⟨_,hadd⟩
end AppendWriter
/-- What a writer owes to the items that have obtained a slot. -/
structure Admission.Completes {ι τ φ : Type} (w : WriterLoop ι τ φ) (maxBuffered : Int) (s : Admission ι τ φ) : Prop
    extends Admission.Accounted w maxBuffered s where
  /-- No item waits for ever: closing the writer completes them all. -/
  completable : ∃ s' errors, (w.admission maxBuffered).Leads s s' ∧ s'.writer.mode = .stopped errors ∧
    s'.admitted = s.admitted ∧ s'.completions.Perm s.admitted

theorem writers_complete :
    (∀ (w : AppendWriter) (hw : w.Created), (∀ b ∈ w.buckets, b ≤ maxInt32) →
      ∀ s, ((w.loop hw).admission w.config.maxBuffered).Reachable s → (∀ x ∈ s.admitted, w.Admitted x) →
        s.Completes (w.loop hw) w.config.maxBuffered) ∧
    ∀ (w : UpsertWriter) (hw : w.Created), ∀ s, ((w.loop hw).admission w.config.maxBuffered).Reachable s →
      s.Completes (w.loop hw) w.config.maxBuffered := by
  constructor
  · intro w hw hids s hreach hqueued
    have hpos : 1 ≤ w.config.maxBuffered := hw.facts.2.2.maxBuffered
    exact ⟨Admission.accounted (by omega) hreach,
      Admission.close_completes hpos (AppendWriter.routable hw hids (by omega) hqueued) hreach⟩
  · intro w hw s hreach
    have hpos : 1 ≤ w.config.maxBuffered := hw.facts.2.2.maxBuffered
    exact ⟨Admission.accounted (by omega) hreach,Admission.close_completes hpos (fun _ _ _ _ _ _ => ⟨_,rfl⟩) hreach⟩

private theorem queuedNumber_queued : singleWriter.Admitted queuedNumber := by
  refine .inl ⟨[.int32 1],0,?_⟩
  have ha : singleWriter.append [.int32 1] = .ok 7 := by decide
  rw [AppendWriter.appendItem,ha]
  rfl
/-- The call for one item has obtained its slot. -/
def slotted {ι τ φ : Type} (w : WriterLoop ι τ φ) (x : ι) : Admission ι τ φ where
  writer := w.initial
  slots := 1
  slotted := [x]
  admitted := [x]

private theorem slotted_reachable {ι τ φ : Type} (w : WriterLoop ι τ φ) (x : ι) {maxBuffered : Int} (h : 0 < maxBuffered) :
    (w.admission maxBuffered).Reachable (slotted w x) := by
  have hc := (System.Reachable.init (T := w.admission maxBuffered) rfl).step (e := ())
    (.call (x := x) (by simp) (by simp) (by simp))
  exact hc.step (e := ()) (.takeSlot (show _ = [] ++ x :: [] from rfl) h)
/-- The upsert of the row `1`. -/
def upsertedNumber : UpsertItem numberKeyWriter where
  record := ⟨[0x01],some [0x00, 0x01]⟩
  bucket := 0
  targets := []
  size := 11
  future := 0
  bucket_mem := by simp [numberKeyWriter]

theorem writers_complete_number :
    let a := singleWriter.loop singleWriter_created
    let u := numberKeyWriter.loop numberKeyWriter_created
    (slotted a queuedNumber).Completes a singleWriter.config.maxBuffered ∧
      numberKeyWriter.upsertItem [.int32 1] 0 = .ok upsertedNumber ∧
      (slotted u upsertedNumber).Completes u numberKeyWriter.config.maxBuffered := by
  refine ⟨writers_complete.1 singleWriter singleWriter_created (by decide) _ (slotted_reachable _ _ (by decide)) ?_,
    rfl,writers_complete.2 numberKeyWriter numberKeyWriter_created _ (slotted_reachable _ _ (by decide))⟩
  intro x hx
  obtain rfl := mem_singleton.mp hx
  exact queuedNumber_queued
/-- A flush or close that a loop takes is answered after finitely many completions, however they end. -/
def WriterLoop.Drains {ι τ φ : Type} (w : WriterLoop ι τ φ) : Prop :=
  w.completeBatch.Uniform ∧ ∀ s, w.system.Reachable s → s.mode = .running → ∀ kind,
    w.system.Inevitable LoopEvent.isCompletion (w.Drained (w.Passes s.loop) kind s.replies) (w.flushAll s kind)

theorem writers_drain (w : AppendWriter) (hw : w.Created) (u : UpsertWriter) (hu : u.Created) :
    (w.loop hw).Drains ∧ (u.loop hu).Drains :=
  ⟨⟨fun _ _ _ _ hr => completeItems_err hr fun _ _ => rfl,fun _ => WriterLoop.flushAll_inevitable⟩,
    fun _ _ _ _ hr => completeItems_err hr fun _ _ => rfl,fun _ => WriterLoop.flushAll_inevitable⟩

theorem writers_drain_number : ∃ s, s.loop.inFlight = 1 ∧ (singleWriter.loop singleWriter_created).system.Inevitable
    LoopEvent.isCompletion ((singleWriter.loop singleWriter_created).Drained
      ((singleWriter.loop singleWriter_created).Passes s.loop) .flush s.replies)
      ((singleWriter.loop singleWriter_created).flushAll s .flush) := by
  let w := singleWriter.loop singleWriter_created
  obtain ⟨s,hs,hi⟩ := System.exists_of_any
    (show (w.step w.initial (.item queuedNumber none)).any (fun s => decide (s.loop.inFlight = 1)) = true by decide)
  have hr : w.system.Reachable s := (System.Reachable.init rfl).step hs
  cases WriterLoop.step_cases hs with
  | add => exact ⟨_,of_decide_eq_true hi,(writers_drain singleWriter singleWriter_created numberKeyWriter
      numberKeyWriter_created).1.2 _ hr rfl .flush⟩
end FlussGo
