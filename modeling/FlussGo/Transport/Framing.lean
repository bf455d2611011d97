import FlussGo.Transport.Connection
/-!
# Request frames on the socket

The write lock serialises the frames, but a frame that was left incomplete is followed by closing the
socket only after the lock has been released.
-/
namespace FlussGo
open List
namespace Transport
variable {c : Connection} {s s' : State} {n total : Nat} {label : Label} {p : Phase} {id : Int}
/-- The call is in the critical section of `writeRequest`. -/
def Phase.locks : Phase → Bool
  | .locked _ => true
  | .writing _ _ _ => true
  | .finishing _ _ _ => true
  | _ => false

def Connection.frame (c : Connection) (n : Nat) (id : Int) : Bytes := (c.requests n).frame id
/-- The accepted part of the frame that a call is writing. -/
def Phase.part (frame : Int → Bytes) : Phase → Bytes
  | .writing id _ total => (frame id).take total
  | .finishing id total _ => (frame id).take total
  | _ => []
/-- The accepted part of the frame that is being written. -/
def State.current (c : Connection) (s : State) : Bytes :=
  match s.writeMu with
  | none => []
  | some n => (s.calls n).part (c.frame n)

def Write.part (c : Connection) (w : Write) : Bytes := (c.frame w.call w.id).take w.total

def Write.whole (c : Connection) (w : Write) : Prop := w.total = 0 ∨ w.total = (c.frame w.call w.id).length
/-- Some request has left its frame incomplete. -/
def State.Torn (c : Connection) (s : State) : Prop := ∃ w ∈ s.writes, ¬ w.whole c
/-- Whole request frames, and at the end perhaps an incomplete one. -/
def Connection.Framed (c : Connection) (bytes : Bytes) : Prop :=
  ∃ (whole : List (Nat × Int)) (tail : Bytes), bytes = (whole.flatMap fun f => c.frame f.1 f.2) ++ tail ∧
    (tail = [] ∨ ∃ n id, tail <+: c.frame n id ∧ tail ≠ c.frame n id)
/-- Nothing is written to an open socket after an incomplete frame. -/
def Connection.Undisturbed (c : Connection) (s : State) (label : Label) : Prop :=
  label = .write → s.socketOpen = true → ¬ s.Torn c
/-- The step does not concern the writing of frames. -/
structure Aside (s s' : State) : Prop where
  writeMu : s'.writeMu = s.writeMu
  accepted : s'.accepted = s.accepted
  writes : s'.writes = s.writes
  calls : ∀ m, s'.calls m = s.calls m ∨ ((s.calls m).locks = false ∧ (s'.calls m).locks = false)

open State
theorem aside_goto {s : State} {n : Nat} (h : (s.calls n).locks = false) (hp : p.locks = false) :
    Aside s (s.goto n p) := by
  refine ⟨rfl,rfl,rfl,fun m => ?_⟩
  by_cases hm : m = n
  · subst hm
    exact .inr ⟨h,by simpa [goto] using hp⟩
  · exact .inl (by simp [goto,hm])

theorem validate_locks (maxFrame : Int) (r : Request) (ctx : Option ContextError) :
    (validate maxFrame r ctx).locks = false := by
  unfold validate
  split
  · rfl
  split
  · rfl
  split
  · rfl
  split <;> rfl

theorem Move.locks {p' : Phase} (h : Move s n p p') : p.locks = false ∧ p'.locks = false := by
  cases h <;> exact ⟨rfl,rfl⟩
/-- The steps that concern the writing of frames. -/
inductive WriteStepOf (c : Connection) : State → Label → State → Prop
  | lock {s : State} {n : Nat} {id : Int} (hphase : s.calls n = .registered id) (hfree : s.writeMu = none) :
      WriteStepOf c s .other { s.goto n (.locked id) with writeMu := some n }
  | leave {s : State} {n : Nat} {id : Int} {p : Phase} (hphase : s.calls n = .locked id) (hp : p.locks = false) :
      WriteStepOf c s .other { s.goto n p with writeMu := none }
  | prepare {s : State} {n : Nat} {id : Int} (hphase : s.calls n = .locked id) :
      WriteStepOf c s .other (s.goto n (.writing id (c.frame n id) 0))
  | write {s : State} {n : Nat} {id : Int} {rest : Bytes} {total written : Nat} {p : Phase}
      (hphase : s.calls n = .writing id rest total) (hwritten : written ≤ rest.length)
      (hopen : s.socketOpen = false → written = 0)
      (hp : p = .writing id (rest.drop written) (total + written) ∨ ∃ err, p = .finishing id (total + written) err) :
      WriteStepOf c s .write { s.goto n p with accepted := s.accepted ++ rest.take written }
  | finish {s : State} {n : Nat} {id : Int} {total : Nat} {err : Option Error} {p : Phase}
      (hphase : s.calls n = .finishing id total err) (hp : p.locks = false) :
      WriteStepOf c s .other { s.goto n p with writeMu := none, writes := s.writes ++ [⟨n,id,total⟩] }

private theorem writeFrame_cases {rest : Bytes} {written : Nat} (h : written ≤ rest.length) (err : Option Error) :
    writeFrame rest total written err = .more (rest.drop written) (total + written) ∨
      ∃ e, writeFrame rest total written err = .done (total + written) e := by
  unfold writeFrame
  rw [if_neg (by omega)]
  cases err with
  | some e => exact .inr ⟨some e,rfl⟩
  | none =>
    dsimp only
    split
    next hz =>
      obtain rfl : written = 0 := by omega
      exact .inr ⟨_,rfl⟩
    · split
      · exact .inr ⟨_,rfl⟩
      · exact .inl rfl

private theorem writeResult_locks (id : Int) (total : Nat) (err finishErr : Option Error) :
    (writeResult id total err finishErr).locks = false := by
  unfold writeResult
  split
  · rfl
  · rfl
  · rfl
  · split <;> rfl

theorem step_aside_or_writes (h : Step c s label s') : (label = .other ∧ Aside s s') ∨ WriteStepOf c s label s' := by
  have same : ∀ {t : State}, t.writeMu = s.writeMu → t.accepted = s.accepted → t.writes = s.writes →
      t.calls = s.calls → Aside s t :=
    fun h₁ h₂ h₃ h₄ => ⟨h₁,h₂,h₃,fun m => .inl (by rw [h₄])⟩
  have goes : ∀ {t : State} {n : Nat} {p : Phase}, (s.calls n).locks = false → p.locks = false →
      t.writeMu = s.writeMu → t.accepted = s.accepted → t.writes = s.writes → t.calls = (s.goto n p).calls →
      Aside s t :=
    fun hn hp h₁ h₂ h₃ h₄ => ⟨h₁,h₂,h₃,fun m => by rw [h₄]; exact (aside_goto hn hp).calls m⟩
  cases h with
  | call hph => exact .inl ⟨rfl,goes (by rw [hph]; rfl) (validate_locks ..) rfl rfl rfl rfl⟩
  | cancel cause hctx => exact .inl ⟨rfl,same rfl rfl rfl rfl⟩
  | takeSlot hph | register hph | receive hph | unregister hph | release hph =>
    exact .inl ⟨rfl,goes (by rw [hph]; rfl) rfl rfl rfl rfl rfl⟩
  | move hm => exact .inl ⟨rfl,aside_goto hm.locks.1 hm.locks.2⟩
  | @exhausted n hph ho hfr =>
    have hpha : (s.calls n).locks = false := by rw [hph]; rfl
    exact .inl ⟨rfl,goes (p := .releasing (.exhausted _)) hpha rfl rfl rfl rfl rfl⟩
  | lock hph hfr => exact .inr (.lock hph hfr)
  | cancelWrite hph | prepareFailed _ hph => exact .inr (.leave hph rfl)
  | prepare hph hctx => exact .inr (.prepare hph)
  | write hph hw ho herr =>
    refine .inr (.write hph hw (fun hc => (ho hc).1) ?_)
    rcases writeFrame_cases hw _ with hmo | ⟨e,hd⟩
    · rw [hmo]
      exact .inl rfl
    · rw [hd]
      exact .inr ⟨e,rfl⟩
  | finish hph hfi => exact .inr (.finish hph (writeResult_locks ..))
  | @failCall n id err stage hph hs =>
    have hf := fail_frame s stage
    exact .inl ⟨rfl,goes (p := .failing id err (s.fail stage).2) (by rw [hph]; rfl) rfl hf.writeMu
      hf.accepted hf.writes (by simp only [goto,hf.calls])⟩
  | @failReader stage hr hs | @failCloser stage _ _ hcl hs =>
    have hf := fail_frame s stage
    exact .inl ⟨rfl,same hf.writeMu hf.accepted hf.writes hf.calls⟩
  | _ => exact .inl ⟨rfl,same rfl rfl rfl rfl⟩
/-- The bytes on the socket are the parts of the frames in the order of the write lock. -/
structure FrameInv (c : Connection) (s : State) : Prop where
  held : ∀ n, (s.calls n).locks = true ↔ s.writeMu = some n
  rest : ∀ n id rest total, s.calls n = .writing id rest total →
    rest = (c.frame n id).drop total ∧ total ≤ (c.frame n id).length
  stream : s.accepted = s.writes.flatMap (Write.part c) ++ s.current c

theorem frameInv_initial : FrameInv c {} := by
  refine ⟨fun n => ?_,?_,rfl⟩
  · simp [Phase.locks]
  · simp

private theorem Aside.current_eq (h : Aside s s') (hh : ∀ n, (s.calls n).locks = true ↔ s.writeMu = some n) :
    s'.current c = s.current c := by
  unfold current
  rw [h.writeMu]
  cases hmu : s.writeMu with
  | none => rfl
  | some n =>
    rcases h.calls n with heq | ⟨hf,_⟩
    · dsimp only
      rw [heq]
    · exact absurd ((hh n).mpr hmu) (by rw [hf]; simp)

private theorem Aside.frameInv (h : Aside s s') (hinv : FrameInv c s) : FrameInv c s' := by
  constructor
  case held =>
    intro n
    rw [h.writeMu,← hinv.held n]
    rcases h.calls n with heq | ⟨h₁,h₂⟩
    · rw [heq]
    · rw [h₁,h₂]
  case rest =>
    intro n id rest total hp
    rcases h.calls n with heq | ⟨_,h₂⟩
    · exact hinv.rest n id rest total (heq ▸ hp)
    · rw [hp] at h₂
      exact Bool.noConfusion h₂
  case stream => rw [h.accepted,h.writes,h.current_eq hinv.held,hinv.stream]

section Goto
variable {p : Phase}

private theorem held_goto {writeMu : Option Nat} (hh : ∀ m, (s.calls m).locks = true ↔ s.writeMu = some m)
    (hs : p.locks = true ↔ writeMu = some n) (ho : ∀ m, m ≠ n → (writeMu = some m ↔ s.writeMu = some m)) (m : Nat) :
    ((s.goto n p).calls m).locks = true ↔ writeMu = some m := by
  by_cases hm : m = n
  · subst hm
    rw [goto_calls_self]
    exact hs
  · rw [goto_calls_ne hm,hh m,ho m hm]

private theorem rest_goto (hr : ∀ m id rest total, s.calls m = .writing id rest total →
      rest = (c.frame m id).drop total ∧ total ≤ (c.frame m id).length)
    (hp : ∀ id rest total, p = .writing id rest total → rest = (c.frame n id).drop total ∧ total ≤ (c.frame n id).length)
    (m : Nat) (id : Int) (rest : Bytes) (total : Nat) (hph : (s.goto n p).calls m = .writing id rest total) :
    rest = (c.frame m id).drop total ∧ total ≤ (c.frame m id).length := by
  by_cases hm : m = n
  · subst hm
    rw [goto_calls_self] at hph
    exact hp id rest total hph
  · rw [goto_calls_ne hm] at hph
    exact hr m id rest total hph
end Goto

private theorem not_writing_of_locks (hp : p.locks = false) (frame : Int → Bytes) :
    ∀ id rest total, p = .writing id rest total → rest = (frame id).drop total ∧ total ≤ (frame id).length := by
  rintro id rest total rfl
  exact Bool.noConfusion hp

theorem WriteStepOf.frameInv (h : WriteStepOf c s label s') (hinv : FrameInv c s) : FrameInv c s' := by
  have ho : ∀ {n : Nat}, (s.calls n).locks = true → s.writeMu = some n := fun {n} h => (hinv.held n).mp h
  have stream := hinv.stream
  cases h with
  | @lock n id hph hf =>
    refine ⟨held_goto hinv.held ?_ ?_,rest_goto hinv.rest ?_,?_⟩
    · simp [Phase.locks]
    · intro m hm
      simp [hf,Ne.symm hm]
    · simp
    · simpa [current,goto,hf,Phase.part] using stream
  | @leave n id p hph hp =>
    have hmu := ho (n := n) (by rw [hph]; rfl)
    refine ⟨held_goto hinv.held ?_ ?_,rest_goto hinv.rest (not_writing_of_locks hp _),?_⟩
    · simp [hp]
    · intro m hm
      simp [hmu,Ne.symm hm]
    · simpa [current,goto,hmu,hph,Phase.part] using stream
  | @prepare n id hph =>
    have hmu := ho (n := n) (by rw [hph]; rfl)
    refine ⟨held_goto hinv.held ?_ fun m _ => Iff.rfl,rest_goto hinv.rest ?_,?_⟩
    · simp [Phase.locks,goto,hmu]
    · intro id' rest total heq
      obtain ⟨rfl,rfl,rfl⟩ := Phase.writing.inj heq
      simp
    · have hc : (s.goto n (.writing id (c.frame n id) 0)).current c = s.current c := by
        simp [current,goto,hmu,hph,Phase.part]
      rw [hc]
      exact stream
  | @write n id rest total written p hph hw hop hp =>
    have hmu := ho (n := n) (by rw [hph]; rfl)
    obtain ⟨hr,ht⟩ := hinv.rest n id rest total hph
    have hlen : rest.length = (c.frame n id).length - total := by rw [hr,length_drop]
    have hl : p.locks = true := by
      rcases hp with rfl | ⟨err,rfl⟩ <;> rfl
    have hpa : p.part (c.frame n) = (c.frame n id).take (total + written) := by
      rcases hp with rfl | ⟨err,rfl⟩ <;> rfl
    refine ⟨held_goto hinv.held ?_ fun m _ => Iff.rfl,rest_goto hinv.rest ?_,?_⟩
    · simp [hl,goto,hmu]
    · intro id' rest' total' heq
      rcases hp with rfl | ⟨err,rfl⟩
      · obtain ⟨rfl,rfl,rfl⟩ := Phase.writing.inj heq
        rw [hr,drop_drop]
        exact ⟨rfl,by omega⟩
      · cases heq
    · have hc : s.current c = (c.frame n id).take total := by simp [current,hmu,hph,Phase.part]
      show s.accepted ++ rest.take written = s.writes.flatMap (Write.part c) ++ current c _
      rw [stream,hc,append_assoc,hr,← take_add]
      simp [current,goto,hmu,hpa]
  | @finish n id total err p hph hp =>
    have hmu := ho (n := n) (by rw [hph]; rfl)
    refine ⟨held_goto hinv.held ?_ ?_,rest_goto hinv.rest (not_writing_of_locks hp _),?_⟩
    · simp [hp]
    · intro m hm
      simp [hmu,Ne.symm hm]
    · simpa [current,goto,hmu,hph,Phase.part,Write.part] using stream

theorem step_frameInv (h : Step c s label s') (hinv : FrameInv c s) : FrameInv c s' := by
  rcases step_aside_or_writes h with ⟨_,ha⟩ | hw
  · exact ha.frameInv hinv
  · exact hw.frameInv hinv
/-- Nothing was accepted after an incomplete frame. -/
structure TornLast (c : Connection) (s : State) : Prop where
  current : s.Torn c → s.current c = []
  split : s.Torn c → ∃ before w after, s.writes = before ++ w :: after ∧ (∀ x ∈ before, x.whole c) ∧ ¬ w.whole c ∧
    ∀ x ∈ after, x.total = 0

private theorem torn_congr (h : s'.writes = s.writes) : s'.Torn c ↔ s.Torn c := by
  rw [State.Torn,State.Torn,h]

private theorem TornLast.congr (h : TornLast c s) (hw : s'.writes = s.writes)
    (hc : s.current c = [] → s'.current c = []) : TornLast c s' := by
  constructor
  · intro ht
    exact hc (h.current ((torn_congr hw).mp ht))
  · rw [hw]
    exact fun ht => h.split ((torn_congr hw).mp ht)

private theorem current_finishing {err : Option Error} (hmu : s.writeMu = some n)
    (hp : s.calls n = .finishing id total err) : s.current c = (c.frame n id).take total := by
  simp [current,hmu,hp,Phase.part]

theorem frame_length (c : Connection) (n : Nat) (id : Int) : 12 ≤ (c.frame n id).length := by
  simp only [Connection.frame,Request.frame,length_append,bigWord_length]
  omega

private theorem total_eq_zero (h : (c.frame n id).take total = []) : total = 0 := by
  rcases take_eq_nil_iff.mp h with h | h
  · exact h
  · have := frame_length c n id
    rw [h] at this
    simp at this

theorem WriteStepOf.tornLast (h : WriteStepOf c s label s') (hinv : FrameInv c s) (ht : TornLast c s)
    (hu : c.Undisturbed s label) : TornLast c s' := by
  have hol : ∀ {n : Nat}, (s.calls n).locks = true → s.writeMu = some n := fun {n} h => (hinv.held n).mp h
  cases h with
  | @lock n id hph hf => exact ht.congr rfl fun _ => by simp [current,Phase.part]
  | @leave n id p hph hp => exact ht.congr rfl fun _ => rfl
  | @prepare n id hph =>
    have hmu := hol (n := n) (by rw [hph]; rfl)
    exact ht.congr rfl fun _ => by simp [current,goto,hmu,Phase.part]
  | @write n id rest total written p hph hwri hop hp =>
    have hmu := hol (n := n) (by rw [hph]; rfl)
    refine ⟨fun hto => ?_,ht.split⟩
    -- The socket is closed, so it has accepted nothing.
    have hc : s.socketOpen = false := by
      rw [Bool.eq_false_iff]
      exact fun ho => hu rfl ho hto
    obtain rfl := hop hc
    have hb : s.current c = (c.frame n id).take total := by simp [current,hmu,hph,Phase.part]
    have hpa : p.part (c.frame n) = (c.frame n id).take total := by
      rcases hp with rfl | ⟨err,rfl⟩ <;> rfl
    rw [← ht.current hto,hb,← hpa]
    simp [current,goto,hmu]
  | @finish n id total err p hph hp =>
    have hmu := hol (n := n) (by rw [hph]; rfl)
    refine ⟨fun _ => rfl,fun hto => ?_⟩
    by_cases hold : s.Torn c
    · obtain ⟨before,w,after,hwr,hb,hw,ha⟩ := ht.split hold
      have hz := total_eq_zero ((current_finishing hmu hph).symm.trans (ht.current hold))
      refine ⟨before,w,after ++ [⟨n,id,total⟩],?_,hb,hw,?_⟩
      · show s.writes ++ _ = _
        rw [hwr]
        simp
      · intro x hx
        rcases mem_append.mp hx with hx | hx
        · exact ha x hx
        · obtain rfl := mem_singleton.mp hx
          exact hz
    · have hwh : ∀ x ∈ s.writes, x.whole c := by
        intro x hx
        by_contra hnot
        exact hold ⟨x,hx,hnot⟩
      obtain ⟨x,hx,hnot⟩ := hto
      rcases mem_append.mp hx with hx | hx
      · exact absurd (hwh x hx) hnot
      · obtain rfl := mem_singleton.mp hx
        exact ⟨s.writes,_,[],rfl,hwh,hnot,by simp⟩

theorem reachable_frames (h : (c.system.guarded c.Undisturbed).Reachable s) : FrameInv c s ∧ TornLast c s := by
  refine System.Reachable.invariant (P := fun s => FrameInv c s ∧ TornLast c s) ?_ ?_ h
  · rintro s rfl
    exact ⟨frameInv_initial,fun _ => rfl,fun ⟨w,hw,_⟩ => by simp at hw⟩
  · rintro s label s' _ ⟨hinv,ht⟩ ⟨hs,hu⟩
    refine ⟨step_frameInv hs hinv,?_⟩
    rcases step_aside_or_writes hs with ⟨_,ha⟩ | hwr
    · exact ht.congr ha.writes fun hnil => (ha.current_eq hinv.held).trans hnil
    · exact hwr.tornLast hinv ht hu

private theorem whole_parts {writes : List Write} (h : ∀ w ∈ writes, w.whole c) :
    ∃ whole : List (Nat × Int), writes.flatMap (Write.part c) = whole.flatMap fun f => c.frame f.1 f.2 := by
  induction writes with
  | nil => exact ⟨[],rfl⟩
  | cons w writes ih =>
    obtain ⟨whole,hw⟩ := ih fun x hx => h x (mem_cons_of_mem _ hx)
    rw [flatMap_cons,hw]
    rcases h w mem_cons_self with hz | hall
    · exact ⟨whole,by simp [Write.part,hz]⟩
    · exact ⟨(w.call, w.id) :: whole,by simp [Write.part,hall]⟩

private theorem framed_append (whole : List (Nat × Int)) (n : Nat) (id : Int) (total : Nat) :
    c.Framed ((whole.flatMap fun f => c.frame f.1 f.2) ++ (c.frame n id).take total) := by
  by_cases heq : (c.frame n id).take total = c.frame n id
  · refine ⟨whole ++ [(n, id)],[],?_,.inl rfl⟩
    rw [heq,append_nil,flatMap_append]
    simp
  · exact ⟨whole,_,rfl,.inr ⟨n,id, take_prefix ..,heq⟩⟩

private theorem zero_parts {writes : List Write} (h : ∀ w ∈ writes, w.total = 0) :
    writes.flatMap (Write.part c) = [] := by
  rw [flatMap_eq_nil_iff]
  intro w hw
  simp [Write.part,h w hw]

private theorem current_cases (s : State) : s.current c = [] ∨
    ∃ n id total, s.current c = (c.frame n id).take total := by
  unfold current
  cases s.writeMu with
  | none => exact .inl rfl
  | some n =>
    dsimp only
    cases s.calls n with
    | writing id _ total | finishing id total => exact .inr ⟨n,id,total,rfl⟩
    | _ => exact .inl rfl

theorem framed_of_inv (hinv : FrameInv c s) (ht : TornLast c s) : c.Framed s.accepted := by
  rw [hinv.stream]
  by_cases hto : s.Torn c
  · obtain ⟨before,w,after,hwr,hb,hw,ha⟩ := ht.split hto
    obtain ⟨whole,hwh⟩ := whole_parts hb
    rw [ht.current hto,hwr,flatMap_append,flatMap_cons,hwh,zero_parts ha,append_nil,append_nil]
    exact framed_append whole w.call w.id w.total
  · have hall : ∀ w ∈ s.writes, w.whole c := by
      intro w hw
      by_contra hnot
      exact hto ⟨w,hw,hnot⟩
    obtain ⟨whole,hwh⟩ := whole_parts hall
    rw [hwh]
    rcases current_cases (c := c) s with hnil | ⟨n,id,total,hp⟩
    · rw [hnil]
      exact ⟨whole,[],rfl,.inl rfl⟩
    · rw [hp]
      exact framed_append whole n id total

theorem torn_final (ht : s.Torn c)
    (hrun : (c.system.guarded c.Undisturbed).Leads s s') : s'.accepted = s.accepted ∧ s'.Torn c := by
  obtain ⟨labels,hrun⟩ := hrun
  induction hrun with
  | nil => exact ⟨rfl,ht⟩
  | @snoc s' s'' labels label hrun hs ih =>
    obtain ⟨hs,hu⟩ := hs
    obtain ⟨ha,ht'⟩ := ih
    rcases step_aside_or_writes hs with ⟨_,has⟩ | hwr
    · exact ⟨has.accepted.trans ha,(torn_congr has.writes).mpr ht'⟩
    cases hwr with
    | write hph hwri hop hp =>
      have hc : s'.socketOpen = false := by
        rw [Bool.eq_false_iff]
        exact fun ho => hu rfl ho ht'
      obtain rfl := hop hc
      refine ⟨?_,ht'⟩
      show s'.accepted ++ _ = _
      rw [take_zero,append_nil,ha]
    | finish hph hp =>
      obtain ⟨w,hw,hnot⟩ := ht'
      exact ⟨ha,w,mem_append_left _ hw,hnot⟩
    | _ => exact ⟨ha,ht'⟩
/-- In every run in which nothing is written to the open socket after an incomplete frame, the socket
carries whole frames and at most one incomplete frame, after which nothing is written. -/
theorem connection_framed (c : Connection) (s : State) (h : (c.system.guarded c.Undisturbed).Reachable s) :
    c.Framed s.accepted ∧
      (s.Torn c → ∀ s', (c.system.guarded c.Undisturbed).Leads s s' → s'.accepted = s.accepted) := by
  obtain ⟨hinv,ht⟩ := reachable_frames h
  exact ⟨framed_of_inv hinv ht,fun htorn s' hrun => (torn_final htorn hrun).1⟩
/-- Two slots, and requests with an empty body. -/
def pairConnection : Connection where
  maxFrame := 100
  maxInFlight := 2
  requests := fun _ => { apiKey := 1, version := 0, marshal := .ok [] }
  errorResponse := fun _ => .error ""
  maxFrame_pos := by decide
  maxInFlight_pos := by decide
/-- A call that is made in `s` and has just prepared the socket for its frame. -/
private structure Begun (s : State) (n : Nat) (id : Int) (s' : State) : Prop where
  phase : s'.calls n = .writing id (pairConnection.frame n id) 0
  others : ∀ m, m ≠ n → s'.calls m = s.calls m
  slots : s'.slots = s.slots ++ [n]
  pending : s'.pending = (id, n) :: s.pending
  nextID : s'.nextID = id
  contexts : s'.contexts = s.contexts
  closeErr : s'.closeErr = s.closeErr
  socketOpen : s'.socketOpen = s.socketOpen
  accepted : s'.accepted = s.accepted
  writes : s'.writes = s.writes

private theorem begin_leads {T : System State Label}
    (other : ∀ {s s' : State}, Step pairConnection s .other s' → T.step s .other s') {s : State} {n : Nat}
    (hp : s.calls n = .absent) (hctx : s.contexts n = none) (ho : s.closeErr = none) (hs : s.slots.length < 2)
    (hf : freeID (s.pending.map Prod.fst) idAttempts s.nextID = some id) (hmu : s.writeMu = none) :
    ∃ s', T.Leads s s' ∧ Begun s n id s' := by
  obtain ⟨s₁,hl,h⟩ := register_leads other hp hctx ho rfl (by simp only [pairConnection]; omega) hf
  let s₂ : State := { s₁.goto n (.locked id) with writeMu := some n }
  have h₂ : Step pairConnection s₁ .other s₂ := .lock h.phase (h.writeMu.trans hmu)
  let s₃ : State := s₂.goto n (.writing id (pairConnection.frame n id) 0)
  have h₃ : Step pairConnection s₂ .other s₃ :=
    .prepare (goto_calls_self s₁ n _) ((congrFun h.contexts n).trans hctx)
  refine ⟨s₃,(hl.step (other h₂)).step (other h₃),?_⟩
  exact {
    phase := goto_calls_self s₂ n _
    others := fun m hm => ((goto_calls_ne hm _ _).trans (goto_calls_ne hm _ _)).trans (h.others m hm)
    slots := h.slots, pending := h.pending, nextID := h.nextID, contexts := h.contexts, closeErr := h.closeErr
    socketOpen := h.socketOpen, accepted := h.accepted, writes := h.writes }

private theorem torn_then_whole :
    ∃ s t, (pairConnection.system.guarded pairConnection.Undisturbed).Reachable s ∧ s.Torn pairConnection ∧
      pairConnection.system.Leads s t ∧ t.accepted = 0 :: pairConnection.frame 1 2 := by
  obtain ⟨s₁,hle,hb⟩ := begin_leads (T := pairConnection.system.guarded pairConnection.Undisturbed)
    (fun h => ⟨h,by simp [Connection.Undisturbed]⟩) (s := {}) (n := 0) rfl rfl rfl (by decide)
    (show freeID _ _ _ = some 1 from rfl) rfl
  have hrea := System.Reachable.leads (.init rfl) hle
  have hby : 1 ≤ (pairConnection.frame 0 1).length := by decide
  let broken : Error := .socket none "broken pipe"
  let s₂ : State := { s₁.goto 0 (.finishing 1 1 (some broken)) with
    accepted := s₁.accepted ++ (pairConnection.frame 0 1).take 1 }
  have hwri : Step pairConnection s₁ .write s₂ := by
    refine .write hb.phase hby (show _ → _ ∧ some broken ≠ none by simp [hb.socketOpen]) ?_
    intro e he
    cases he
    show s₁.contexts 0 = none
    rw [hb.contexts]
  let s₃ : State := { s₂.goto 0 (.discarding 1 broken) with writeMu := none, writes := s₂.writes ++ [⟨0,1,1⟩] }
  have hf : Step pairConnection s₂ .other s₃ :=
    .finish (show s₂.calls 0 = .finishing 1 1 (some broken) from goto_calls_self s₁ 0 _) (.inl rfl)
  have hr : (pairConnection.system.guarded pairConnection.Undisturbed).Reachable s₂ :=
    hrea.step (e := .write) ⟨hwri,fun _ _ ⟨w,hw,_⟩ => by simp [hb.writes] at hw⟩
  have hre : (pairConnection.system.guarded pairConnection.Undisturbed).Reachable s₃ :=
    hr.step (e := .other) ⟨hf,by simp [Connection.Undisturbed]⟩
  obtain ⟨s₄,hl,hbe⟩ := begin_leads (T := pairConnection.system) (fun h => h) (s := s₃) (n := 1)
    (by simp [s₃,s₂,goto,hb.others]) (by simp [s₃,s₂,goto,hb.contexts])
    (by simp [s₃,s₂,goto,hb.closeErr]) (by simp [s₃,s₂,goto,hb.slots])
    (show freeID (s₁.pending.map Prod.fst) idAttempts s₁.nextID = some 2 by rw [hb.pending,hb.nextID]; rfl) rfl
  let s₅ : State := { s₄.goto 1 (.finishing 2 12 none) with
    accepted := s₄.accepted ++ (pairConnection.frame 1 2).take 12 }
  have hwr : Step pairConnection s₄ .write s₅ := by
    refine .write hbe.phase (show 12 ≤ _ by decide) (show _ → _ ∧ none ≠ none from ?_) (by simp)
    rw [hbe.socketOpen]
    simp [s₃,s₂,goto,hb.socketOpen]
  refine ⟨s₃,s₅,hre,⟨⟨0,1,1⟩,mem_append_right _ (mem_singleton.mpr rfl),?_⟩,
    hl.step (e := .write) hwr,?_⟩
  · simp only [Write.whole]
    decide
  · show s₄.accepted ++ _ = _
    rw [hbe.accepted]
    show s₁.accepted ++ _ ++ _ = _
    rw [hb.accepted]
    decide

theorem connection_framed_pair :
    ∃ s, s.Torn pairConnection ∧ pairConnection.Framed s.accepted ∧
      ∀ s', (pairConnection.system.guarded pairConnection.Undisturbed).Leads s s' → s'.accepted = s.accepted := by
  obtain ⟨s,_,hreach,htorn,_⟩ := torn_then_whole
  have h := connection_framed pairConnection s hreach
  exact ⟨s,htorn,h.1,h.2 htorn⟩
/-- The frame of the second request follows one byte of the first one. -/
theorem connection_frame_after_torn :
    ∃ s, pairConnection.system.Reachable s ∧ ¬ pairConnection.Framed s.accepted := by
  obtain ⟨s,t,hreach,_,hleads,haccepted⟩ := torn_then_whole
  refine ⟨t,hreach.of_guarded.leads hleads,?_⟩
  rintro ⟨whole,tail,heq,htail⟩
  rw [haccepted] at heq
  have hlength : ∀ n id, (pairConnection.frame n id).length = 12 := by
    intro n id
    simp [Connection.frame,Request.frame,Request.body,pairConnection]
  cases whole with
  | nil =>
    rw [flatMap_nil,nil_append] at heq
    rcases htail with rfl | ⟨n,id, hprefix,_⟩
    · simp at heq
    · have := hprefix.length_le
      rw [← heq,hlength,length_cons,hlength] at this
      omega
  | cons f whole =>
    -- The low byte of the size is at position 3 of every frame.
    have hbyte := congrArg (·[3]?) heq
    have hframe : (pairConnection.frame f.1 f.2)[3]? = some 8 := by
      simp [Connection.frame,Request.frame,Request.body,pairConnection]
      decide
    rw [flatMap_cons,append_assoc] at hbyte
    simp only [getElem?_append_left (show 3 < (pairConnection.frame f.1 f.2).length by rw [hlength]; omega),
      hframe] at hbyte
    revert hbyte
    decide
end Transport
end FlussGo
