import FlussGo.Transport.Pending
import Mathlib.Data.Int.Interval
/-!
# What requests return

A frame is handed to the call that is registered with its ID. Every result is traced to such a frame, to the
call itself, or to the error with which the connection failed.
-/
namespace FlussGo
open List Function List.Subset Prod
namespace Transport
variable {c : Connection} {s s' : State} {n : Nat}

def Phase.fresh : Phase → Bool
  | .absent => true
  | .waiting => true
  | .slotted => true
  | .checked => true
  | _ => false

def Phase.result : Phase → Option Result
  | .leaving _ result => some result
  | .releasing result => some result
  | .returned result => some result
  | _ => none

def Phase.stage : Phase → Option FailStage
  | .failing _ _ stage => some stage
  | _ => none
/-- The frame with the given number carried the ID of the call and was handed to it. -/
def Delivered (c : Connection) (s : State) (n number : Nat) (reply : FrameReply) : Prop :=
  ∃ id frame, s.ids n = some id ∧ s.frames[number]? = some frame ∧
    handleFrame c.errorResponse frame = .deliver id reply ∧ (number, n) ∈ s.deliveries

def ReplyOk (c : Connection) (s : State) (n : Nat) : Reply → Prop
  | .frame number reply => Delivered c s n number reply
  | .terminal err => s.closeErr = some err

def ResultOk (c : Connection) (s : State) (n : Nat) : Result → Prop
  | .response number bytes =>
    Delivered c s n number (.body bytes) ∧ (c.requests n).hasResponse = true ∧ (c.requests n).unmarshal bytes = none
  | .remote number code message => Delivered c s n number (.remote code message)
  | .undecodable number err => ∃ bytes, Delivered c s n number (.body bytes) ∧
      (((c.requests n).hasResponse = false ∧ err = .malformed "no response constructor") ∨
        ∃ text, (c.requests n).unmarshal bytes = some text ∧ err = .unmarshal text)
  | .invalid err => ∃ ctx, validate c.maxFrame (c.requests n) ctx = .returned (.invalid err)
  | .context cause => s.contexts n = some cause
  | .exhausted taken => 2147483648 ≤ c.maxInFlight ∧ ∀ id, 1 ≤ id ∧ id ≤ 2147483647 → id ∈ taken
  | .write err => err.isContext = true ∨ ∃ cause, err = .discarded cause (.writeFailed cause)
  | .terminal err => s.closeErr = some err
/-- The error of a `fail` call that has closed the connection is the terminal error. -/
def StageOk (s : State) : FailStage → Prop
  | .close err _ => s.closeErr = some err
  | .complete err _ => s.closeErr = some err
  | _ => True

def ReaderOk (c : Connection) (s : State) : Reader → Prop
  | .reading => True
  | .delivering number id reply =>
    (∃ frame, s.frames[number]? = some frame ∧ handleFrame c.errorResponse frame = .deliver id reply) ∧
      ∀ d ∈ s.deliveries, d.1 ≠ number
  | .completing number call reply => Delivered c s call number reply
  | .failing stage => StageOk s stage
/-- What a step leaves in place. -/
structure Grows (s s' : State) : Prop where
  frames : s.frames <+: s'.frames
  deliveries : s.deliveries ⊆ s'.deliveries
  ids : ∀ n id, s.ids n = some id → s'.ids n = some id
  contexts : ∀ n cause, s.contexts n = some cause → s'.contexts n = some cause
  closeErr : ∀ err, s.closeErr = some err → s'.closeErr = some err

theorem Delivered.mono {number : Nat} {reply : FrameReply} (h : Delivered c s n number reply) (hg : Grows s s') :
    Delivered c s' n number reply := by
  obtain ⟨id,frame,hid,hf,hh,hmem⟩ := h
  obtain ⟨more,hm⟩ := hg.frames
  exact ⟨id,frame,hg.ids n id hid,hm ▸ getElem?_append_of hf _,hh,hg.deliveries hmem⟩

theorem ReplyOk.mono {reply : Reply} (h : ReplyOk c s n reply) (hg : Grows s s') : ReplyOk c s' n reply := by
  cases reply with
  | frame number reply => exact Delivered.mono h hg
  | terminal err => exact hg.closeErr err h

theorem ResultOk.mono {r : Result} (h : ResultOk c s n r) (hg : Grows s s') : ResultOk c s' n r := by
  cases r with
  | response number bytes => exact ⟨h.1.mono hg,h.2⟩
  | remote number code message => exact Delivered.mono h hg
  | undecodable number err =>
    obtain ⟨bytes,hd,herr⟩ := h
    exact ⟨bytes,hd.mono hg,herr⟩
  | context cause => exact hg.contexts n cause h
  | terminal err => exact hg.closeErr err h
  | _ => exact h

theorem StageOk.mono {stage : FailStage} (h : StageOk s stage) (hg : Grows s s') : StageOk s' stage := by
  cases stage with
  | close err | complete err => exact hg.closeErr err h
  | _ => trivial

theorem receiveResult_ok {reply : Reply} (h : ReplyOk c s n reply) :
    ResultOk c s n (receiveResult (c.requests n) reply) := by
  cases reply with
  | terminal err => exact h
  | frame number reply =>
    cases reply with
    | remote code message => exact h
    | body bytes =>
      simp only [receiveResult]
      split
      next hr => exact ⟨bytes,h,.inl ⟨by simpa using hr,rfl⟩⟩
      next hr =>
        split
        next text ht => exact ⟨bytes,h,.inr ⟨text,ht,rfl⟩⟩
        next hd => exact ⟨h,by simpa using hr,hd⟩

structure ReplyInv (c : Connection) (s : State) : Prop where
  fresh : ∀ n, (s.calls n).fresh = true → s.ids n = none
  ids : ∀ n id, (s.calls n).id = some id → s.ids n = some id
  reader : ReaderOk c s s.reader
  channels : ∀ n reply, s.channels n = some reply → ReplyOk c s n reply
  stages : ∀ n stage, (s.calls n).stage = some stage → StageOk s stage
  closers : ∀ stage ∈ s.closers, StageOk s stage
  results : ∀ n r, (s.calls n).result = some r → ResultOk c s n r
  deliveries_nodup : (s.deliveries.map fst).Nodup
  deliveries_lt : ∀ d ∈ s.deliveries, d.1 < s.frames.length

open Phase
theorem replyInv_initial : ReplyInv c {} := by
  constructor <;> simp [Phase.id,Phase.stage,Phase.result,ReaderOk]
/-- What `fail` does to the terminal error, the channels and its own stage. -/
theorem fail_spec {stage : FailStage} (h : StageOk s stage) : StageOk (s.fail stage).1 (s.fail stage).2 ∧
    ∀ n reply, (s.fail stage).1.channels n = some reply → s.channels n = some reply ∨
      ∃ err, reply = .terminal err ∧ (s.fail stage).1.closeErr = some err := by
  cases stage with
  | start err =>
    cases hc : s.closeErr with
    | none | some => simp +contextual [State.fail,hc,StageOk]
  | close err taken => exact ⟨h,fun _ _ h => .inl h⟩
  | ended => exact ⟨trivial,fun _ _ h => .inl h⟩
  | complete err taken =>
    cases taken with
    | nil => exact ⟨trivial,fun _ _ h => .inl h⟩
    | cons call taken =>
      refine ⟨h,fun n reply hr => ?_⟩
      by_cases hn : n = call
      · subst hn
        simp only [State.fail,completeChannel,update_self] at hr
        cases hold : s.channels n with
        | some old =>
          rw [hold] at hr
          exact .inl hr
        | none =>
          rw [hold] at hr
          exact .inr ⟨err,(Option.some.inj hr).symm,h⟩
      · simp only [State.fail,completeChannel,update_of_ne hn] at hr
        exact .inl hr

theorem fail_closeErr {stage : FailStage} {err : Error} (h : s.closeErr = some err) :
    (s.fail stage).1.closeErr = some err := by
  rcases fail_cases s stage with ⟨_,hc⟩ | ⟨ho,_⟩
  · rw [hc,h]
  · rw [ho] at h
    cases h

theorem ReaderOk.mono {reader : Reader} (h : ReaderOk c s reader) (hg : Grows s s')
    (hd : s'.deliveries = s.deliveries) : ReaderOk c s' reader := by
  cases reader with
  | reading => trivial
  | delivering number id reply =>
    obtain ⟨⟨frame,hf,hh⟩,hnew⟩ := h
    obtain ⟨more,hm⟩ := hg.frames
    exact ⟨⟨frame,hm ▸ getElem?_append_of hf _,hh⟩,hd ▸ hnew⟩
  | completing number call reply => exact Delivered.mono h hg
  | failing stage => exact StageOk.mono h hg
/-- What a step does to the calls. -/
structure CallsStep (c : Connection) (s s' : State) : Prop where
  fresh : ∀ n, (s'.calls n).fresh = true → (s.calls n).fresh = true ∧ s'.ids n = s.ids n
  ids : ∀ n id, (s'.calls n).id = some id → (s.calls n).id = some id ∨ s'.ids n = some id
  stages : ∀ n stage, (s'.calls n).stage = some stage → (s.calls n).stage = some stage ∨ StageOk s' stage
  results : ∀ n r, (s'.calls n).result = some r → (s.calls n).result = some r ∨ ResultOk c s' n r
/-- What a step does to everything else. -/
structure RestStep (c : Connection) (s s' : State) : Prop where
  grows : Grows s s'
  reader : ReaderOk c s' s'.reader
  channels : ∀ n reply, s'.channels n = some reply → s.channels n = some reply ∨ ReplyOk c s' n reply
  closers : ∀ stage ∈ s'.closers, stage ∈ s.closers ∨ StageOk s' stage
  deliveries_nodup : (s'.deliveries.map fst).Nodup
  deliveries_lt : ∀ d ∈ s'.deliveries, d.1 < s'.frames.length

theorem ReplyInv.step (hinv : ReplyInv c s) (hc : CallsStep c s s') (hr : RestStep c s s') : ReplyInv c s' where
  fresh n h := by
    obtain ⟨hf,hids⟩ := hc.fresh n h
    rw [hids]
    exact hinv.fresh n hf
  ids n id h := (hc.ids n id h).elim (fun h => hr.grows.ids n id (hinv.ids n id h)) fun h => h
  reader := hr.reader
  channels n reply h := (hr.channels n reply h).elim (fun h => (hinv.channels n reply h).mono hr.grows) fun h => h
  stages n stage h := (hc.stages n stage h).elim (fun h => (hinv.stages n stage h).mono hr.grows) fun h => h
  closers stage h := (hr.closers stage h).elim (fun h => (hinv.closers stage h).mono hr.grows) fun h => h
  results n r h := (hc.results n r h).elim (fun h => (hinv.results n r h).mono hr.grows) fun h => h
  deliveries_nodup := hr.deliveries_nodup
  deliveries_lt := hr.deliveries_lt

theorem CallsStep.same (hc : s'.calls = s.calls) (hids : s'.ids = s.ids) : CallsStep c s s' where
  fresh n h := ⟨hc ▸ h,by rw [hids]⟩
  ids n id h := .inl (hc ▸ h)
  stages n stage h := .inl (hc ▸ h)
  results n r h := .inl (hc ▸ h)

private theorem CallsStep.goto_ids {p : Phase} (hc : s'.calls = (s.goto n p).calls)
    (hids : ∀ m, m ≠ n → s'.ids m = s.ids m) (hf : p.fresh = true → (s.calls n).fresh = true ∧ s'.ids n = s.ids n)
    (hid : ∀ id, p.id = some id → (s.calls n).id = some id ∨ s'.ids n = some id)
    (hst : ∀ stage, p.stage = some stage → StageOk s' stage)
    (hr : ∀ r, p.result = some r → (s.calls n).result = some r ∨ ResultOk c s' n r) : CallsStep c s s' := by
  have hs : s'.calls n = p := by simp [hc,State.goto]
  have ho : ∀ m, m ≠ n → s'.calls m = s.calls m := fun m hm => by simp [hc,State.goto,hm]
  constructor
  case fresh =>
    intro m h
    by_cases hm : m = n
    · subst hm
      exact hf (hs ▸ h)
    · exact ⟨ho m hm ▸ h,hids m hm⟩
  case ids =>
    intro m id h
    by_cases hm : m = n
    · subst hm
      exact hid id (hs ▸ h)
    · exact .inl (ho m hm ▸ h)
  case stages =>
    intro m stage h
    by_cases hm : m = n
    · subst hm
      exact .inr (hst stage (hs ▸ h))
    · exact .inl (ho m hm ▸ h)
  case results =>
    intro m r h
    by_cases hm : m = n
    · subst hm
      exact hr r (hs ▸ h)
    · exact .inl (ho m hm ▸ h)

theorem CallsStep.goto {p : Phase} (hc : s'.calls = (s.goto n p).calls) (hids : s'.ids = s.ids)
    (hf : p.fresh = true → (s.calls n).fresh = true) (hid : ∀ id, p.id = some id → (s.calls n).id = some id)
    (hs : ∀ stage, p.stage = some stage → StageOk s' stage)
    (hr : ∀ r, p.result = some r → (s.calls n).result = some r ∨ ResultOk c s' n r) : CallsStep c s s' :=
  .goto_ids hc (fun m _ => by rw [hids]) (fun h => ⟨hf h,by rw [hids]⟩) (fun id h => .inl (hid id h))
    hs hr
/-- A step that changes neither the reader nor the closers, and at most takes a value from a channel. -/
theorem RestStep.same (hinv : ReplyInv c s) (hg : Grows s s') (hr : s'.reader = s.reader)
    (hc : ∀ n reply, s'.channels n = some reply → s.channels n = some reply) (hcl : s'.closers = s.closers)
    (hd : s'.deliveries = s.deliveries) (hf : s'.frames = s.frames) : RestStep c s s' where
  grows := hg
  reader := hr ▸ hinv.reader.mono hg hd
  channels n reply h := .inl (hc n reply h)
  closers stage h := .inl (hcl ▸ h)
  deliveries_nodup := hd ▸ hinv.deliveries_nodup
  deliveries_lt := by
    rw [hd,hf]
    exact hinv.deliveries_lt

theorem Grows.of_eq (hf : s'.frames = s.frames) (hd : s'.deliveries = s.deliveries) (hids : s'.ids = s.ids)
    (hc : s'.contexts = s.contexts) (hcl : s'.closeErr = s.closeErr) : Grows s s' where
  frames := hf ▸ prefix_refl _
  deliveries := hd ▸ refl _
  ids n id h := by rw [hids,h]
  contexts n cause h := by rw [hc,h]
  closeErr err h := by rw [hcl,h]
/-- IDs run out only when all of them are pending and one more call has a slot. -/
theorem TableInv.exhausted (h : TableInv c s) (hp : s.calls n = .checked)
    (hf : freeID (s.pending.map fst) idAttempts s.nextID = none) : 2147483648 ≤ c.maxInFlight := by
  have hids : 2147483647 ≤ s.pending.length := by
    have hsub : Finset.Icc (1 : Int) 2147483647 ⊆ (s.pending.map fst).toFinset := by
      intro t ht
      exact mem_toFinset.mpr (freeID_none h.nextID hf t (Finset.mem_Icc.mp ht))
    have hca := (Finset.card_le_card hsub).trans (toFinset_card_le _)
    rw [Int.card_Icc,length_map] at hca
    omega
  have hc : n :: s.pending.map snd ⊆ s.slots := by
    intro m hm
    rcases mem_cons.mp hm with rfl | hm
    · rw [h.slots_mem m,hp]
      rfl
    · exact h.pending_slots hm
  have hnew : n ∉ s.pending.map snd := by
    intro hn
    obtain ⟨⟨id,m⟩,hmem,rfl⟩ := mem_map.mp hn
    have := h.registered id m hmem
    rw [hp] at this
    cases this
  have hl := (subperm_of_subset (nodup_cons.mpr ⟨hnew,h.calls_nodup⟩) hc).length_le
  rw [length_cons,length_map] at hl
  have := h.slots_le
  omega

private theorem validate_result {maxFrame : Int} {r : Request} {ctx : Option ContextError} :
    (validate maxFrame r ctx).stage = none ∧ ∀ result, (validate maxFrame r ctx).result = some result →
      (∃ err, result = .invalid err ∧ validate maxFrame r ctx = .returned (.invalid err)) ∨
        ∃ cause, result = .context cause ∧ ctx = some cause := by
  unfold validate
  split
  · simp +contextual [stage,result]
  split
  · simp +contextual [stage,result]
  split
  · simp +contextual [stage,result]
  split <;> simp +contextual [stage,result]

private theorem writeResult_result {id : Int} {total : Nat} {err finishErr : Option Error} :
    (writeResult id total err finishErr).fresh = false ∧ (writeResult id total err finishErr).stage = none ∧
      ∀ result, (writeResult id total err finishErr).result = some result →
        ∃ e, result = .write e ∧ e.isContext = true := by
  unfold writeResult
  split
  · simp [fresh,stage,result]
  · simp [fresh,stage,result]
  · simp [fresh,stage,result]
  split
  · simp [fresh,stage,result]
  rename_i e hw
  refine ⟨rfl,rfl,fun result h => ⟨e,(Option.some.inj h).symm,?_⟩⟩
  cases hc : e.isContext with
  | true => rfl
  | false => exact absurd (.inr hc) hw

private theorem Move.result {p q : Phase} (h : Move s n p q) (r : Result) (hr : q.result = some r) :
    ResultOk c s n r := by
  cases h with
  | discarded =>
    cases hr
    exact .inr ⟨_,rfl⟩
  | check _ => cases hr
  | discard => cases hr
  | _ =>
    cases hr
    assumption

private theorem Move.callsStep {p : Phase} (h : Move s n (s.calls n) p) : CallsStep c s (s.goto n p) := by
  refine .goto rfl rfl ?_ (fun id hid => h.keeps.1 ▸ hid) ?_ ?_
  · generalize s.calls n = q at h
    cases h <;> simp [fresh]
  · intro stage hs
    generalize s.calls n = q at h
    cases h <;> cases hs
    trivial
  · intro r hr
    exact .inr ((h.result r hr).mono (.of_eq rfl rfl rfl rfl rfl))

theorem step_calls {label : Label} (h : Step c s label s') (ht : TableInv c s) (hinv : ReplyInv c s) :
    CallsStep c s s' := by
  cases h with
  | call hp =>
    refine .goto rfl rfl (fun _ => by rw [hp]; rfl) ?_ ?_ ?_
    · simp [(validate_keeps ..).1]
    · simp [validate_result.1]
    · intro r hr
      rcases validate_result.2 r hr with ⟨err,rfl,hi⟩ | ⟨cause,rfl,hctx⟩
      · exact .inr ⟨_,hi⟩
      · exact .inr hctx
  | takeSlot hp hro =>
    exact .goto rfl rfl (fun _ => by rw [hp]; rfl) (by simp [Phase.id]) (by simp [Phase.stage])
      (by simp [Phase.result])
  | move hmo => exact hmo.callsStep
  | @register n id hp ho hf =>
    refine .goto_ids rfl (fun m hm => update_of_ne hm ..) (by simp [fresh]) ?_ (by simp [stage]) (by simp [result])
    intro id' hid
    cases hid
    exact .inr (update_self ..)
  | exhausted hp ho hf =>
    refine .goto rfl rfl (by simp [Phase.fresh]) (by simp [Phase.id]) (by simp [Phase.stage]) ?_
    intro r hr
    cases hr
    exact .inr ⟨ht.exhausted hp hf,freeID_none ht.nextID hf⟩
  | lock hp | prepare hp | prepareFailed _ hp =>
    exact .goto rfl rfl (by simp [Phase.fresh]) (by simp [hp,Phase.id]) (by simp [Phase.stage]) (by simp [Phase.result])
  | cancelWrite hp hctx =>
    refine .goto rfl rfl (by simp [Phase.fresh]) (by simp [hp,Phase.id]) (by simp [Phase.stage]) ?_
    intro r hr
    cases hr
    exact .inr hctx
  | @write n id rest total written err hp hw ho herr =>
    refine .goto rfl rfl ?_ ?_ ?_ ?_
    · split <;> simp [fresh]
    · rw [hp]
      split <;> simp [Phase.id]
    · split <;> simp [stage]
    · split <;> simp [result]
  | finish hp hfi =>
    refine .goto rfl rfl ?_ ?_ ?_ ?_
    · simp [writeResult_result.1]
    · intro id hid
      rw [(writeResult_keeps ..).1] at hid
      rw [hp]
      exact hid
    · simp [writeResult_result.2.1]
    · intro r hr
      obtain ⟨e,rfl,hc⟩ := writeResult_result.2.2 r hr
      exact .inr (.inl hc)
  | @failCall n id err stage hp hs =>
    have hst := hinv.stages n stage (by rw [hp]; rfl)
    refine .goto (n := n) (p := .failing id err (s.fail stage).2) ?_ (fail_frame s stage).ids (by simp [fresh])
      (by simp [hp,Phase.id]) ?_ (by simp [Phase.result])
    · simp only [State.goto,(fail_frame s stage).calls]
    · intro stage' hs'
      cases hs'
      exact StageOk.mono (fail_spec hst).1 (.of_eq rfl rfl rfl rfl rfl)
  | receive hp hre =>
    refine .goto rfl rfl (by simp [Phase.fresh]) (by simp [hp,Phase.id]) (by simp [Phase.stage]) ?_
    intro r hr
    cases hr
    exact .inr ((receiveResult_ok (hinv.channels _ _ hre)).mono (.of_eq rfl rfl rfl rfl rfl))
  | unregister hp | release hp =>
    refine .goto rfl rfl (by simp [Phase.fresh]) (by simp [Phase.id]) (by simp [Phase.stage]) ?_
    intro r hr
    rw [hp]
    exact .inl hr
  | failReader | failCloser => exact .same (fail_frame s _).calls (fail_frame s _).ids
  | _ => exact .same rfl rfl

theorem step_grows {label : Label} (h : Step c s label s') (hinv : ReplyInv c s) : Grows s s' := by
  have fails : ∀ {t : State} (stage : FailStage), t.frames = (s.fail stage).1.frames →
      t.deliveries = (s.fail stage).1.deliveries → t.ids = (s.fail stage).1.ids →
      t.contexts = (s.fail stage).1.contexts → t.closeErr = (s.fail stage).1.closeErr → Grows s t := by
    intro t stage hfr hd hids hc hcl
    have hf := fail_frame s stage
    have hsa : Grows s { t with closeErr := s.closeErr } :=
      .of_eq (hfr.trans hf.frames) (hd.trans hf.deliveries) (hids.trans hf.ids)
        (hc.trans hf.contexts) rfl
    refine { hsa with closeErr := fun err herr => ?_ }
    rw [hcl]
    exact fail_closeErr herr
  cases h with
  | @cancel n cause hctx =>
    refine ⟨prefix_refl _,refl _,fun _ _ h => h,fun m cause' h => ?_,fun _ h => h⟩
    have hm : m ≠ n := by
      rintro rfl
      rw [hctx] at h
      cases h
    exact (update_of_ne hm ..).trans h
  | @register n id hp ho hfre =>
    refine ⟨prefix_refl _,refl _,fun m id' h => ?_,fun _ _ h => h,fun _ h => h⟩
    have hm : m ≠ n := by
      rintro rfl
      rw [hinv.fresh m (by rw [hp]; rfl)] at h
      cases h
    exact (update_of_ne hm ..).trans h
  | failCall | failReader | failCloser => exact fails _ rfl rfl rfl rfl rfl
  | read hr hf =>
    exact ⟨prefix_append ..,refl _,fun _ _ h => h,fun _ _ h => h,fun _ h => h⟩
  | deliver hr hpe =>
    exact ⟨prefix_refl _,subset_append_left ..,fun _ _ h => h,fun _ _ h => h,fun _ h => h⟩
  | _ => exact .of_eq rfl rfl rfl rfl rfl

private theorem RestStep.fail (hinv : ReplyInv c s) (hg : Grows s s') {stage : FailStage} (hs : StageOk s stage)
    (hr : ReaderOk c s' s'.reader) (hcl : ∀ stage ∈ s'.closers, stage ∈ s.closers ∨ StageOk s' stage)
    (hc : s'.channels = (s.fail stage).1.channels) (hclo : s'.closeErr = (s.fail stage).1.closeErr)
    (hd : s'.deliveries = (s.fail stage).1.deliveries) (hf : s'.frames = (s.fail stage).1.frames) :
    RestStep c s s' where
  grows := hg
  reader := hr
  closers := hcl
  channels n reply h := by
    rw [hc] at h
    rcases (fail_spec hs).2 n reply h with hold | ⟨err,rfl,herr⟩
    · exact .inl hold
    · exact .inr (hclo.trans herr)
  deliveries_nodup := by
    rw [hd,(fail_frame s stage).deliveries]
    exact hinv.deliveries_nodup
  deliveries_lt := by
    rw [hd,hf,(fail_frame s stage).frames,(fail_frame s stage).deliveries]
    exact hinv.deliveries_lt

theorem step_rest {label : Label} (h : Step c s label s') (ht : TableInv c s) (hinv : ReplyInv c s) :
    RestStep c s s' := by
  have hg := step_grows h hinv
  cases h with
  | @failCall n id err stage hph hs =>
    have hst := hinv.stages n stage (by rw [hph]; rfl)
    have hf := fail_frame s stage
    refine .fail hinv hg hst ?_ (fun stage h => .inl (hf.closers ▸ h)) rfl rfl rfl rfl
    show ReaderOk c _ (s.fail stage).1.reader
    rw [hf.reader]
    exact hinv.reader.mono hg hf.deliveries
  | @receive n id reply hph hrep =>
    refine .same hinv hg rfl ?_ rfl rfl rfl
    intro m reply' h
    by_cases hm : m = n
    · subst hm
      simp at h
    · simpa [hm] using h
  | @read frame rest hr hf =>
    refine ⟨hg,?_,fun _ _ h => .inl h,fun _ h => .inl h,hinv.deliveries_nodup,?_⟩
    · dsimp only
      split
      next id reply hh =>
        refine ⟨⟨frame,by simp,hh⟩,fun d hd => ?_⟩
        exact Nat.ne_of_lt (hinv.deliveries_lt d hd)
      · trivial
    · intro d hd
      have := hinv.deliveries_lt d hd
      show d.1 < (s.frames ++ [frame]).length
      rw [length_append]
      omega
  | readFailed | drop =>
    exact ⟨hg,trivial,fun _ _ h => .inl h,fun _ h => .inl h,hinv.deliveries_nodup,hinv.deliveries_lt⟩
  | @deliver number call id reply hr hp =>
    have hre := hinv.reader
    rw [hr] at hre
    obtain ⟨⟨frame,hf,hh⟩,hnew⟩ := hre
    have he : (id, call) ∈ s.pending := by
      obtain ⟨before,after,hsp,_⟩ := lookup_eq_some_iff.mp hp
      simp [hsp]
    have hid : s.ids call = some id := hinv.ids call id (ht.registered id call he)
    refine ⟨hg,⟨id,frame,hid,hf,hh,by simp⟩,fun _ _ h => .inl h,fun _ h => .inl h,?_,?_⟩
    · rw [map_append,nodup_append]
      refine ⟨hinv.deliveries_nodup,by simp,?_⟩
      intro a ha b hb heq
      obtain ⟨d,hd,rfl⟩ := mem_map.mp ha
      rw [map_singleton,mem_singleton] at hb
      exact hnew d hd (heq.trans hb)
    · intro d hd
      rcases mem_append.mp hd with hd | hd
      · exact hinv.deliveries_lt d hd
      · rw [mem_singleton] at hd
        subst hd
        exact (lt_of_getElem? hf)
  | @complete number call reply hr =>
    have hre := hinv.reader
    rw [hr] at hre
    refine ⟨hg,trivial,?_,fun _ h => .inl h,hinv.deliveries_nodup,hinv.deliveries_lt⟩
    intro n reply' h
    by_cases hn : n = call
    · subst hn
      simp only [completeChannel,update_self] at h
      cases hold : s.channels n with
      | some old =>
        rw [hold] at h
        exact .inl h
      | none =>
        rw [hold] at h
        cases h
        exact .inr (Delivered.mono hre hg)
    · simp only [completeChannel,update_of_ne hn] at h
      exact .inl h
  | @failReader stage hr hs =>
    have hre := hinv.reader
    rw [hr] at hre
    refine .fail hinv hg hre ?_ (fun stage' h => .inl ?_) rfl rfl rfl rfl
    · exact StageOk.mono (fail_spec hre).1 (.of_eq rfl rfl rfl rfl rfl)
    · exact (fail_frame s stage).closers ▸ h
  | close =>
    refine ⟨hg,hinv.reader.mono hg rfl,fun _ _ h => .inl h,?_,hinv.deliveries_nodup,hinv.deliveries_lt⟩
    intro stage hs
    rcases mem_append.mp hs with hs | hs
    · exact .inl hs
    · rw [mem_singleton] at hs
      subst hs
      exact .inr trivial
  | @failCloser stage before after hc hs =>
    have hst := hinv.closers stage (by simp [hc])
    have hf := fail_frame s stage
    refine .fail hinv hg hst ?_ ?_ rfl rfl rfl rfl
    · show ReaderOk c _ (s.fail stage).1.reader
      rw [hf.reader]
      exact hinv.reader.mono hg hf.deliveries
    · intro stage' h
      rw [hc]
      rcases mem_append.mp h with h | h
      · exact .inl (mem_append_left _ h)
      · rcases mem_cons.mp h with rfl | h
        · exact .inr (StageOk.mono (fail_spec hst).1 (.of_eq rfl rfl rfl rfl rfl))
        · exact .inl (mem_append_right _ (mem_cons_of_mem _ h))
  | _ => exact .same hinv hg rfl (fun _ _ h => h) rfl rfl rfl

theorem reachable_replies (h : c.system.Reachable s) : ReplyInv c s := by
  refine System.Reachable.invariant (P := ReplyInv c) ?_ ?_ h
  · rintro s rfl
    exact replyInv_initial
  · intro s label s' hr hinv hs
    have ht := reachable_table hr
    exact hinv.step (step_calls hs ht hinv) (step_rest hs ht hinv)
end Transport
end FlussGo
