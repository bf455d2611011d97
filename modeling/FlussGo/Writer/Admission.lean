import FlussGo.Writer.Append
import FlussGo.Writer.Conservation
import FlussGo.Writer.Upsert
/-!
# Admission, flush and close

The callers of a writer around its loop: `enqueue` with its slot, the append lock and the command
queue, `Flush` and `Close`, and the contexts of all of them. The lock is modelled by where its holder is.
-/
namespace FlussGo
open List WriterLoop LoopState
def errClosed : GoError := ⟨some .closed,Sentinel.closed.text⟩

inductive Command (ι : Type) where
  | item (x : ι)
  | flush
  | close
/-- Where the holder of `appendMu` is: before it reads `closed`, or in its select on the queue. -/
inductive Holder (ι : Type) where
  | append (x : ι)
  | sendItem (x : ι)
  | flush
  | sendFlush
  | close
  | sendClose

structure Admission (ι τ φ : Type) where
  writer : WriterState ι τ φ
  queue : List (Command ι) := []
  lock : Option (Holder ι) := none
  closed : Bool := false
  /-- The channel `done` is closed. -/
  done : Bool := false
  /-- The number of tokens in the channel `slots`. -/
  slots : Int := 0
  /-- The `enqueue` calls in their first select, and those that wait for the lock with a slot. -/
  calls : List ι := []
  slotted : List ι := []
  /-- The items that never obtained a slot, those that did, and those of them sent to the queue. -/
  refused : List ι := []
  admitted : List ι := []
  accepted : List ι := []
  /-- The calls of `complete` that `enqueue` made for items with a slot. -/
  completed : List (ι × WriteResult) := []
/-- The loop event that takes a command; `canceled` is the error of an item's context. -/
def Command.event {ι : Type} (canceled : Option GoError) : Command ι → LoopEvent ι
  | .item x => .item x canceled
  | .flush => .flush
  | .close => .close

def Mode.closes : Mode → Bool
  | .running => false
  | .draining .flush _ => false
  | .draining .close _ => true
  | .closing _ => true
  | .stopped _ => true

def Holder.sends {ι : Type} : Holder ι → Bool
  | .sendItem _ => true
  | .sendFlush => true
  | .sendClose => true
  | _ => false

namespace Admission
variable {ι τ φ : Type}
/-- `enqueue` completes an item that has a slot, which `complete` releases, and unlocks. -/
def giveUp (s : Admission ι τ φ) (x : ι) (err : GoError) : Admission ι τ φ :=
  { s with lock := none, slots := s.slots - 1, completed := s.completed ++ [(x, { err := some err })] }
/-- The loop has moved; every call of `complete` it made has released a slot. -/
def moveLoop (s : Admission ι τ φ) (writer : WriterState ι τ φ) : Admission ι τ φ :=
  { s with
    writer := writer
    slots := s.slots - ((writer.loop.completed.length : Int) - s.writer.loop.completed.length) }
end Admission
/-- The steps of callers and loop. Every select may take any of its ready cases, and every context
may be canceled at any time. -/
inductive AdmissionStep {ι τ φ : Type} (w : WriterLoop ι τ φ) (maxBuffered : Int) :
    Admission ι τ φ → Admission ι τ φ → Prop
  | call {s : Admission ι τ φ} {x : ι} (hcalls : x ∉ s.calls) (hadmitted : x ∉ s.admitted) (hrefused : x ∉ s.refused) :
      AdmissionStep w maxBuffered s { s with calls := s.calls ++ [x] }
  | takeSlot {s : Admission ι τ φ} {x : ι} {before after : List ι} (hcalls : s.calls = before ++ x :: after)
      (hroom : s.slots < maxBuffered) :
      AdmissionStep w maxBuffered s { s with
        calls := before ++ after, slotted := s.slotted ++ [x], slots := s.slots + 1, admitted := s.admitted ++ [x] }
  | cancelCall {s : Admission ι τ φ} {x : ι} {before after : List ι} (hcalls : s.calls = before ++ x :: after) :
      AdmissionStep w maxBuffered s { s with calls := before ++ after, refused := s.refused ++ [x] }
  | closedCall {s : Admission ι τ φ} {x : ι} {before after : List ι} (hcalls : s.calls = before ++ x :: after)
      (hdone : s.done = true) :
      AdmissionStep w maxBuffered s { s with calls := before ++ after, refused := s.refused ++ [x] }
  | lockAppend {s : Admission ι τ φ} {x : ι} {before after : List ι} (hlock : s.lock = none)
      (hslotted : s.slotted = before ++ x :: after) :
      AdmissionStep w maxBuffered s { s with slotted := before ++ after, lock := some (.append x) }
  | appendClosed {s : Admission ι τ φ} {x : ι} (hlock : s.lock = some (.append x)) (hclosed : s.closed = true) :
      AdmissionStep w maxBuffered s (s.giveUp x errClosed)
  | appendOpen {s : Admission ι τ φ} {x : ι} (hlock : s.lock = some (.append x)) (hclosed : s.closed = false) :
      AdmissionStep w maxBuffered s { s with lock := some (.sendItem x) }
  | sendItem {s : Admission ι τ φ} {x : ι} (hlock : s.lock = some (.sendItem x)) (hroom : s.queue.length < maxBuffered) :
      AdmissionStep w maxBuffered s { s with
        lock := none, queue := s.queue ++ [.item x], accepted := s.accepted ++ [x] }
  | cancelSend {s : Admission ι τ φ} {x : ι} (err : GoError) (hlock : s.lock = some (.sendItem x)) :
      AdmissionStep w maxBuffered s (s.giveUp x err)
  | closedSend {s : Admission ι τ φ} {x : ι} (hlock : s.lock = some (.sendItem x)) (hdone : s.done = true) :
      AdmissionStep w maxBuffered s (s.giveUp x errClosed)
  | lockFlush {s : Admission ι τ φ} (hlock : s.lock = none) : AdmissionStep w maxBuffered s { s with lock := some .flush }
  | flushClosed {s : Admission ι τ φ} (hlock : s.lock = some .flush) (hclosed : s.closed = true) :
      AdmissionStep w maxBuffered s { s with lock := none }
  | flushOpen {s : Admission ι τ φ} (hlock : s.lock = some .flush) (hclosed : s.closed = false) :
      AdmissionStep w maxBuffered s { s with lock := some .sendFlush }
  | sendFlush {s : Admission ι τ φ} (hlock : s.lock = some .sendFlush) (hroom : s.queue.length < maxBuffered) :
      AdmissionStep w maxBuffered s { s with lock := none, queue := s.queue ++ [.flush] }
  | cancelFlush {s : Admission ι τ φ} (hlock : s.lock = some .sendFlush) :
      AdmissionStep w maxBuffered s { s with lock := none }
  | lockClose {s : Admission ι τ φ} (hlock : s.lock = none) : AdmissionStep w maxBuffered s { s with lock := some .close }
  | closeAgain {s : Admission ι τ φ} (hlock : s.lock = some .close) (hclosed : s.closed = true) :
      AdmissionStep w maxBuffered s { s with lock := none }
  | closeOpen {s : Admission ι τ φ} (hlock : s.lock = some .close) (hclosed : s.closed = false) :
      AdmissionStep w maxBuffered s { s with lock := some .sendClose, closed := true }
  | sendClose {s : Admission ι τ φ} (hlock : s.lock = some .sendClose) (hroom : s.queue.length < maxBuffered) :
      AdmissionStep w maxBuffered s { s with lock := none, queue := s.queue ++ [.close] }
  | cancelClose {s : Admission ι τ φ} (hlock : s.lock = some .sendClose) :
      AdmissionStep w maxBuffered s { s with lock := none, closed := false }
  | command {s : Admission ι τ φ} {command : Command ι} {rest : List (Command ι)} {writer : WriterState ι τ φ}
      (canceled : Option GoError) (hqueue : s.queue = command :: rest)
      (hstep : w.step s.writer (command.event canceled) = some writer) :
      AdmissionStep w maxBuffered s { s.moveLoop writer with queue := rest }
  | timer {s : Admission ι τ φ} {writer : WriterState ι τ φ} (hstep : w.step s.writer .timer = some writer) :
      AdmissionStep w maxBuffered s (s.moveLoop writer)
  | completion {s : Admission ι τ φ} {writer : WriterState ι τ φ} {index : Nat} {result : AttemptResult}
      (hstep : w.step s.writer (.completion index result) = some writer) :
      AdmissionStep w maxBuffered s (s.moveLoop writer)
  | finish {s : Admission ι τ φ} {writer : WriterState ι τ φ} (hlock : s.lock = none)
      (hstep : w.step s.writer .finish = some writer) : AdmissionStep w maxBuffered s (s.moveLoop writer)
  | done {s : Admission ι τ φ} {errors : List GoError} (hstopped : s.writer.mode = .stopped errors) :
      AdmissionStep w maxBuffered s { s with done := true }

def WriterLoop.admission {ι τ φ : Type} (w : WriterLoop ι τ φ) (maxBuffered : Int) : System (Admission ι τ φ) Unit where
  init s := s = { writer := w.initial }
  step s _ s' := AdmissionStep w maxBuffered s s'

namespace Admission
variable {ι τ φ : Type} {w : WriterLoop ι τ φ} {maxBuffered : Int} {s s' : Admission ι τ φ} {holder : Holder ι}

theorem writer_reachable (h : (w.admission maxBuffered).Reachable s) : w.system.Reachable s.writer := by
  refine h.map (U := w.system) writer ?_ ?_
  · rintro s rfl
    rfl
  · rintro s _ s' _ hs
    cases hs with
    | command _ _ hs | timer hs | completion hs | finish _ hs => exact .inr ⟨_,hs⟩
    | _ => exact .inl rfl

def lockItems : Option (Holder ι) → List ι
  | some (.append x) => [x]
  | some (.sendItem x) => [x]
  | _ => []

def queueItems (queue : List (Command ι)) : List ι :=
  queue.flatMap fun command =>
    match command with
    | .item x => [x]
    | _ => []

def completions (s : Admission ι τ φ) : List ι := s.completed.map Prod.fst ++ s.writer.loop.completed.map Prod.fst

structure Inv (w : WriterLoop ι τ φ) (maxBuffered : Int) (s : Admission ι τ φ) : Prop where
  accepted_eq : (s.accepted : Multiset ι) = (queueItems s.queue : Multiset ι) + s.writer.loop.account w.config
  admitted_eq : (s.admitted : Multiset ι) = (s.slotted : Multiset ι) + (lockItems s.lock : Multiset ι) +
    (s.accepted : Multiset ι) + (s.completed.map Prod.fst : Multiset ι)
  slots_eq : s.slots = s.admitted.length - s.completions.length
  slots_le : s.slots ≤ maxBuffered
  distinct : ((s.calls : Multiset ι) + (s.admitted : Multiset ι) + (s.refused : Multiset ι)).Nodup

private theorem accepted_add {queue queue' : List (Command ι)} {l l' items : Multiset ι} {accepted : List ι}
    (h : (accepted : Multiset ι) = (queueItems queue : Multiset ι) + l)
    (hq : (queueItems queue : Multiset ι) = items + (queueItems queue' : Multiset ι)) (hl : l' = l + items) :
    (accepted : Multiset ι) = (queueItems queue' : Multiset ι) + l' := by
  rw [h,hq,hl]
  abel

private theorem Inv.moveLoop {writer : WriterState ι τ φ} {queue : List (Command ι)} {e : LoopEvent ι}
    (h : Inv w maxBuffered s) (hinv : s.writer.loop.Inv w.config w.targets) (hs : w.step s.writer e = some writer)
    (hq : queueItems s.queue = eventItems e ++ queueItems queue) :
    Inv w maxBuffered { s.moveLoop writer with queue := queue } := by
  have hg := (step_completed hs).length_le
  refine { h with accepted_eq := ?_, slots_eq := ?_, slots_le := ?_ }
  · refine accepted_add h.accepted_eq ?_ (step_account hinv hs)
    rw [hq,← Multiset.coe_add]
  · have := h.slots_eq
    simp only [Admission.moveLoop,completions,length_append,length_map] at this ⊢
    omega
  · have := h.slots_le
    simp only [Admission.moveLoop]
    omega

private theorem Inv.giveUp {x : ι} (h : Inv w maxBuffered s) (hl : lockItems s.lock = [x]) (err : GoError) :
    Inv w maxBuffered (s.giveUp x err) := by
  refine { h with admitted_eq := ?_, slots_eq := ?_, slots_le := ?_ }
  · have := h.admitted_eq
    rw [hl] at this
    rw [Admission.giveUp,this]
    simp only [lockItems,map_append,map_cons,map_nil,← Multiset.coe_add,Multiset.coe_nil]
    abel
  · have := h.slots_eq
    simp only [Admission.giveUp,completions,length_append,length_map,length_singleton] at this ⊢
    omega
  · have := h.slots_le
    simp only [Admission.giveUp]
    omega

private theorem Inv.relock {l : Option (Holder ι)} (h : Inv w maxBuffered s) (hl : lockItems l = lockItems s.lock)
    (closed : Bool) : Inv w maxBuffered { s with lock := l, closed := closed } :=
  { h with admitted_eq := by dsimp only; rw [hl]; exact h.admitted_eq }

private theorem Inv.sendCommand {command : Command ι} (h : Inv w maxBuffered s) (hl : lockItems s.lock = [])
    (hc : queueItems [command] = []) : Inv w maxBuffered { s with lock := none, queue := s.queue ++ [command] } := by
  refine { h with accepted_eq := ?_, admitted_eq := ?_ }
  · have := h.accepted_eq
    simp only [queueItems,flatMap_append] at hc this ⊢
    rw [hc,append_nil]
    exact this
  · have := h.admitted_eq
    rw [hl] at this
    exact this

private theorem queueItems_event (command : Command ι) (rest : List (Command ι)) (canceled : Option GoError) :
    queueItems (command :: rest) = eventItems (command.event canceled) ++ queueItems rest := by
  cases command <;> rfl

theorem inv_step (hinv : s.writer.loop.Inv w.config w.targets) (h : Inv w maxBuffered s)
    (hs : AdmissionStep w maxBuffered s s') : Inv w maxBuffered s' := by
  cases hs with
  | @call x hc ha hre =>
    refine { h with distinct := ?_ }
    have heq : ((s.calls ++ [x] : List ι) : Multiset ι) + (s.admitted : Multiset ι) + (s.refused : Multiset ι) =
        x ::ₘ ((s.calls : Multiset ι) + (s.admitted : Multiset ι) + (s.refused : Multiset ι)) := by
      rw [← Multiset.coe_add,Multiset.coe_singleton,← Multiset.singleton_add]
      abel
    rw [heq,Multiset.nodup_cons]
    exact ⟨by simp [hc,ha,hre],h.distinct⟩
  | @takeSlot x before after hc hr =>
    refine { h with admitted_eq := ?_, slots_eq := ?_, slots_le := ?_, distinct := ?_ }
    · have := h.admitted_eq
      simp only [← Multiset.coe_add,Multiset.coe_singleton] at this ⊢
      rw [this]
      abel
    · have := h.slots_eq
      simp only [completions,length_append,length_singleton] at this ⊢
      omega
    · dsimp only
      omega
    · have := h.distinct
      rw [hc,← Multiset.coe_add,← Multiset.cons_coe,← Multiset.singleton_add] at this
      rw [← Multiset.coe_add,← Multiset.coe_add,Multiset.coe_singleton]
      convert this using 1
      abel
  | @cancelCall x before after hc | @closedCall x before after hc hd =>
    refine { h with distinct := ?_ }
    have := h.distinct
    rw [hc,← Multiset.coe_add,← Multiset.cons_coe,← Multiset.singleton_add] at this
    rw [← Multiset.coe_add,← Multiset.coe_add,Multiset.coe_singleton]
    convert this using 1
    abel
  | @lockAppend x before after hl hsl =>
    refine { h with admitted_eq := ?_ }
    have := h.admitted_eq
    rw [hsl,hl] at this
    rw [this]
    simp only [lockItems,← Multiset.coe_add,← Multiset.cons_coe,← Multiset.singleton_add,Multiset.coe_nil]
    abel
  | appendClosed hl hcl => exact h.giveUp (by rw [hl]; rfl) errClosed
  | appendOpen hl | lockFlush hl | flushClosed hl | flushOpen hl | cancelFlush hl | lockClose hl
  | closeAgain hl => exact h.relock (by rw [hl]; rfl) s.closed
  | @sendItem x hl hr =>
    refine { h with accepted_eq := ?_, admitted_eq := ?_ }
    · have := h.accepted_eq
      simp only [queueItems,flatMap_append,flatMap_singleton,← Multiset.coe_add] at this ⊢
      rw [this]
      abel
    · have := h.admitted_eq
      rw [hl] at this
      rw [this]
      simp only [lockItems,← Multiset.coe_add,Multiset.coe_nil]
      abel
  | cancelSend err hl => exact h.giveUp (by rw [hl]; rfl) err
  | closedSend hl hd => exact h.giveUp (by rw [hl]; rfl) errClosed
  | sendFlush hl hr => exact h.sendCommand (by rw [hl]; rfl) rfl
  | closeOpen hl hcl => exact h.relock (by rw [hl]; rfl) true
  | sendClose hl hr => exact h.sendCommand (by rw [hl]; rfl) rfl
  | cancelClose hl => exact h.relock (by rw [hl]; rfl) false
  | command canceled hq hs =>
    exact h.moveLoop hinv hs (by rw [hq]; exact queueItems_event _ _ canceled)
  | timer hs | completion hs | finish _ hs => exact h.moveLoop hinv hs rfl
  | done hst => exact { h with }
/-- The close command ends the queue: once it has been sent, `closed` stays set and nobody sends. -/
structure CloseInv (s : Admission ι τ φ) : Prop where
  sent : Command.close ∈ s.queue ∨ s.writer.mode.closes = true →
    s.closed = true ∧ ∀ holder, s.lock = some holder → holder.sends = false
  last : ∀ before after, s.queue = before ++ Command.close :: after → after = []
  taken : s.writer.mode.closes = true → s.queue = []
  sendClose : s.lock = some .sendClose → s.closed = true
  closed : s.closed = true → s.lock = some .sendClose ∨ Command.close ∈ s.queue ∨ s.writer.mode.closes = true

private theorem CloseInv.not_sent (h : CloseInv s) (hl : s.lock = some holder)
    (hs : holder.sends = true) : Command.close ∉ s.queue ∧ s.writer.mode.closes = false := by
  constructor
  · intro hmem
    have := (h.sent (.inl hmem)).2 holder hl
    simp [hs] at this
  · rw [Bool.eq_false_iff]
    intro hc
    have := (h.sent (.inr hc)).2 holder hl
    simp [hs] at this

private theorem CloseInv.relock {l : Option (Holder ι)} (h : CloseInv s) (hlo : s.lock ≠ some .sendClose)
    (hl : ∀ holder, l = some holder → holder.sends = false) : CloseInv { s with lock := l } := by
  refine { h with sent := fun hs => ⟨(h.sent hs).1,hl⟩, sendClose := ?_, closed := ?_ }
  · intro hse
    have := hl _ hse
    simp [Holder.sends] at this
  · exact fun hc => .inr ((h.closed hc).resolve_left hlo)

private theorem CloseInv.giveUp (h : CloseInv s) (hl : s.lock ≠ some .sendClose) (x : ι) (err : GoError) :
    CloseInv (s.giveUp x err) := by
  have hu := h.relock (l := none) hl (by simp)
  exact { hu with }

private theorem CloseInv.startSend (h : CloseInv s) (hc : s.closed = false)
    (hh : holder ≠ .sendClose) : CloseInv { s with lock := some holder } := by
  refine { h with sent := ?_, sendClose := ?_, closed := ?_ }
  · intro hs
    have := (h.sent hs).1
    simp [hc] at this
  · intro hl
    exact absurd (Option.some.inj hl) hh
  · intro ht
    simp [hc] at ht

private theorem CloseInv.send {command : Command ι} {accepted : List ι} (h : CloseInv s)
    (hl : s.lock = some holder) (hs : holder.sends = true) (hcl : command = .close ↔ holder = .sendClose) :
    CloseInv { s with lock := none, queue := s.queue ++ [command], accepted := accepted } := by
  obtain ⟨hq,hm⟩ := h.not_sent hl hs
  constructor
  · rintro (hmem | hc)
    · rcases mem_append.mp hmem with hmem | hmem
      · exact absurd hmem hq
      · have hh := hcl.mp (mem_singleton.mp hmem).symm
        exact ⟨h.sendClose (hh ▸ hl),by simp⟩
    · simp [hm] at hc
  · intro before after heq
    rcases eq_nil_or_concat after with hnil | ⟨init,last,hla⟩
    · exact hnil
    · rw [hla,concat_eq_append,← cons_append,← append_assoc] at heq
      have := (append_inj' heq rfl).1
      exact absurd (this ▸ mem_append_right _ mem_cons_self) hq
  · intro hc
    simp [hm] at hc
  · simp
  · intro hclo
    rcases h.closed hclo with hse | hmem | hc
    · obtain rfl := hcl.mpr (Option.some.inj (hl.symm.trans hse))
      exact .inr (.inl (mem_append_right _ (mem_singleton.mpr rfl)))
    · exact absurd hmem hq
    · simp [hm] at hc
end Admission

theorem WriterLoop.step_closes {ι τ φ : Type} {w : WriterLoop ι τ φ} {s s' : WriterState ι τ φ} {e : LoopEvent ι}
    (h : w.step s e = some s') : s'.mode.closes = true ↔ s.mode.closes = true ∨ e = .close := by
  have hs : ∀ (s : WriterState ι τ φ) (kind : Drain) (errors : List GoError), s.mode = .draining kind errors →
      ((settle s).mode.closes = true ↔ kind = .close) := by
    intro s kind errors hm
    unfold settle
    rw [hm]
    cases kind <;> dsimp only <;> split <;> simp [hm,Mode.closes]
  cases step_cases h with
  | canceled _ _ hm | add _ hm | timer hm | completion _ hm | finish hm => simp [hm,Mode.closes]
  | flush hm =>
    rw [flushAll,hs _ .flush _ rfl]
    simp [hm,Mode.closes]
  | close hm =>
    rw [flushAll,hs _ .close _ rfl]
    simp
  | @drain index st kind errors result hm hst =>
    rw [hs _ kind _ rfl,hm]
    cases kind <;> simp [Mode.closes]

namespace Admission
variable {ι τ φ : Type} {w : WriterLoop ι τ φ} {maxBuffered : Int} {s s' : Admission ι τ φ}

private theorem CloseInv.moveLoop {writer : WriterState ι τ φ} {e : LoopEvent ι} (h : CloseInv s)
    (hs : w.step s.writer e = some writer) (he : e ≠ .close) : CloseInv (s.moveLoop writer) := by
  have hc : writer.mode.closes = true ↔ s.writer.mode.closes = true := by
    rw [step_closes hs]
    simp [he]
  refine { h with sent := ?_, taken := ?_, closed := ?_ }
  · exact fun hse => h.sent (hse.imp_right hc.mp)
  · exact fun hcl => h.taken (hc.mp hcl)
  · exact fun hclo => (h.closed hclo).imp_right (Or.imp_right hc.mpr)

private theorem CloseInv.takeCommand {writer : WriterState ι τ φ} {command : Command ι} {rest : List (Command ι)}
    {canceled : Option GoError} (h : CloseInv s) (hq : s.queue = command :: rest)
    (hs : w.step s.writer (command.event canceled) = some writer) :
    CloseInv { s.moveLoop writer with queue := rest } := by
  have hcl := step_closes hs
  have ho : s.writer.mode.closes = false := by
    rw [Bool.eq_false_iff]
    intro hc
    simp [h.taken hc] at hq
  have hclo : command.event canceled = .close → command = .close := by
    cases command <;> simp [Command.event]
  constructor
  · rintro (hmem | hc)
    · exact h.sent (.inl (hq ▸ mem_cons_of_mem _ hmem))
    · obtain rfl := hclo ((hcl.mp hc).resolve_left (by simp [ho]))
      exact h.sent (.inl (hq ▸ mem_cons_self))
  · intro before after heq
    have hr : rest = before ++ Command.close :: after := heq
    exact h.last (command :: before) after (by rw [hq,hr]; rfl)
  · intro hc
    obtain rfl := hclo ((hcl.mp hc).resolve_left (by simp [ho]))
    exact h.last [] rest hq
  · exact h.sendClose
  · intro hclos
    rcases h.closed hclos with hse | hmem | hc
    · exact .inl hse
    · rw [hq] at hmem
      rcases mem_cons.mp hmem with rfl | hmem
      · exact .inr (.inr (hcl.mpr (.inr rfl)))
      · exact .inr (.inl hmem)
    · simp [ho] at hc

theorem closeInv_step (h : CloseInv s) (hs : AdmissionStep w maxBuffered s s') : CloseInv s' := by
  cases hs with
  | call | takeSlot | cancelCall | closedCall | done => exact { h with }
  | @lockAppend x _ _ hl hsl =>
    exact { h.relock (l := some (.append x)) (by simp [hl]) (by simp [Holder.sends]) with }
  | appendClosed hl | cancelSend _ hl | closedSend hl => exact h.giveUp (by simp [hl]) _ _
  | appendOpen _ hc | flushOpen _ hc => exact h.startSend hc (by simp)
  | sendItem hl | sendFlush hl | sendClose hl => exact h.send hl rfl (by simp)
  | lockFlush hl | lockClose hl => exact h.relock (by simp [hl]) (by simp [Holder.sends])
  | flushClosed hl | cancelFlush hl | closeAgain hl => exact h.relock (by simp [hl]) (by simp)
  | closeOpen hl hc =>
    refine { h with sent := ?_, sendClose := fun _ => rfl, closed := fun _ => .inl rfl }
    intro hse
    have := (h.sent hse).1
    simp [hc] at this
  | cancelClose hl =>
    obtain ⟨hq,hm⟩ := h.not_sent hl rfl
    refine { h with sent := ?_, sendClose := by simp, closed := by simp }
    rintro (hmem | hcl)
    · exact absurd hmem hq
    · simp [hm] at hcl
  | command canceled hq hs => exact h.takeCommand hq hs
  | timer hs | completion hs | finish _ hs => exact h.moveLoop hs (by simp)

theorem reachable_closeInv (h : (w.admission maxBuffered).Reachable s) : CloseInv s := by
  refine System.Reachable.invariant (P := CloseInv) ?_ (fun _ _ _ _ hs hst => closeInv_step hs hst) h
  rintro s rfl
  constructor
  · rintro (hmem | hc)
    · simp at hmem
    · simp [initial,Mode.closes] at hc
  · intro before after heq
    simp at heq
  · exact fun _ => rfl
  · simp
  · simp

theorem reachable_inv (hpos : 0 ≤ maxBuffered) (h : (w.admission maxBuffered).Reachable s) : Inv w maxBuffered s := by
  refine System.Reachable.invariant (P := Inv w maxBuffered) ?_ ?_ h
  · rintro s rfl
    refine ⟨?_,rfl,rfl,hpos,by simp⟩
    show 0 = 0 + account w.config ({} : LoopState ι τ)
    rw [account_initial,add_zero]
  · intro s e s' hr hs hst
    exact inv_step (WriterLoop.reachable_inv (writer_reachable hr)) hs hst
/-- What the slots and futures of a writer and its callers keep. -/
structure Accounted (w : WriterLoop ι τ φ) (maxBuffered : Int) (s : Admission ι τ φ) : Prop where
  admitted_nodup : s.admitted.Nodup
  /-- An item with a slot is in one place: its `enqueue` call, the queue, the loop, or completed. -/
  places : (s.admitted : Multiset ι) = (s.slotted : Multiset ι) + (lockItems s.lock : Multiset ι) +
    (queueItems s.queue : Multiset ι) + s.writer.loop.held w.config + (s.completions : Multiset ι)
  completed_once : s.completions.Nodup
  slots_eq : s.slots = s.admitted.length - s.completions.length
  outstanding_le : (s.admitted.length : Int) - s.completions.length ≤ maxBuffered
  returned : ∀ errors, s.writer.mode = .stopped errors → s.closed = true ∧ s.queue = [] ∧
    (∀ b, s.writer.loop.openItems b = []) ∧ (∀ b ∈ w.config.buckets, s.writer.loop.pending b = []) ∧
    s.writer.loop.executing = [] ∧ ∀ x ∈ s.accepted, x ∈ s.completions

theorem accounted (hpos : 0 ≤ maxBuffered) (h : (w.admission maxBuffered).Reachable s) : Accounted w maxBuffered s := by
  have hinv := reachable_inv hpos h
  have hp : (s.admitted : Multiset ι) = (s.slotted : Multiset ι) + (lockItems s.lock : Multiset ι) +
      (queueItems s.queue : Multiset ι) + s.writer.loop.held w.config + (s.completions : Multiset ι) := by
    rw [hinv.admitted_eq,hinv.accepted_eq,completions,← Multiset.coe_add,account,completedItems]
    abel
  have ha : s.admitted.Nodup := by
    have := Multiset.nodup_add.mp (Multiset.nodup_add.mp hinv.distinct).1
    exact Multiset.coe_nodup.mp this.2.1
  constructor
  case admitted_nodup => exact ha
  case places => exact hp
  case completed_once =>
    have := Multiset.coe_nodup.mpr ha
    rw [hp] at this
    exact Multiset.coe_nodup.mp (Multiset.nodup_add.mp this).2.1
  case slots_eq => exact hinv.slots_eq
  case outstanding_le =>
    have := hinv.slots_eq
    have := hinv.slots_le
    omega
  case returned =>
    intro errors hs
    have hcl := reachable_closeInv h
    have hc : s.writer.mode.closes = true := by
      rw [hs]
      rfl
    obtain ⟨hh,ho,he,hpe⟩ := stopped_held (writer_reachable h) hs
    have hq := hcl.taken hc
    refine ⟨(hcl.sent (.inr hc)).1,hq,ho,hpe,he,?_⟩
    intro x hx
    have hac := hinv.accepted_eq
    rw [hq,account,hh,zero_add] at hac
    have hmem : x ∈ (s.accepted : Multiset ι) := hx
    rw [hac] at hmem
    simp only [queueItems,flatMap_nil,Multiset.coe_nil,zero_add,completedItems,Multiset.mem_coe] at hmem
    exact mem_append_right _ hmem
end Admission
end FlussGo
