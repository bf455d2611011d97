import FlussGo.Writer.LoopInvariant
/-!
# Runs of the scheduler loop

The cases of a step, the invariant of every reachable state, what a run does to the view, and that a
failed bucket starts no batch any more.
-/
namespace FlussGo
open Option
namespace LoopState
variable {ι τ : Type} {c : LoopConfig} {targets : ι → τ} {completeBatch : CompleteBatch ι τ} {s s' : LoopState ι τ}
  {b : Int} {batches : List (Started ι τ)}
/-- A batch of the bucket has failed, and `batches` are all that were started for it. -/
structure Failed (c : LoopConfig) (b : Int) (batches : List (Started ι τ)) (s : LoopState ι τ) : Prop where
  run : RunInv c s
  poisoned : s.poisoned b ≠ none
  started : s.startedAt b = batches

variable (h : Failed c b batches s)
include h

theorem Failed.starts (hs : Starts c s s') : Failed c b batches s' := by
  induction hs with
  | refl => exact h
  | @start s' bucket batch rest _ _ hi hp hlt ih =>
    have hne : b ≠ bucket := by
      rintro rfl
      exact ih.poisoned (ih.run.not_poisoned (by simp [hp]))
    exact ⟨ih.run.start hi hp hlt,ih.poisoned,(startedAt_start_of_ne hne).trans ih.started⟩

theorem Failed.dispatch : Failed c b batches (dispatch c s) := h.starts (dispatch_starts s)

theorem Failed.complete (results : List (ι × WriteResult)) :
    Failed c b batches (s.complete results) := ⟨h.run.complete results,h.poisoned,h.started⟩

theorem Failed.setTimer (armed : Bool) : Failed c b batches (s.setTimer armed) :=
  ⟨h.run.setTimer armed,h.poisoned,h.started⟩

theorem Failed.flushBucket (completeBatch : CompleteBatch ι τ) (bucket : Int) :
    Failed c b batches (s.flushBucket c completeBatch bucket).1 := by
  apply flushBucket_rule (P := Failed c b batches) fun _ => h
  · exact fun _ _ _ _ hp => Failed.complete ⟨h.run.takeBatch hp,h.poisoned,h.started⟩ _
  · exact fun _ _ _ hp => Failed.dispatch ⟨h.run.enqueue hp,h.poisoned,h.started⟩

theorem Failed.queueAll (completeBatch : CompleteBatch ι τ) : Failed c b batches (s.queueAll c completeBatch).1 :=
  queueAll_rule (h.setTimer false) fun _ bucket hl => hl.flushBucket completeBatch bucket

theorem Failed.ops {xs : List ι} (hops : Ops c targets completeBatch s xs s') : Failed c b batches s' := by
  induction hops with
  | refl => exact h
  | flush bucket _ ih => exact ih.flushBucket completeBatch bucket
  | openBatch bucket t _ _ ih => exact ⟨ih.run.openBatch bucket t,ih.poisoned,ih.started⟩
  | timer armed _ ih => exact ih.setTimer armed
  | assign size _ _ _ _ ih => exact ⟨ih.run.assign _ _ _ size,ih.poisoned,ih.started⟩
  | reject result _ ih => exact ih.complete _

theorem Failed.handleCompletion {index : Nat} {st : Started ι τ}
    (hst : s.executing[index]? = some st) (completeBatch : CompleteBatch ι τ) (result : AttemptResult) :
    Failed c b batches (s.handleCompletion c completeBatch index st result) := by
  have hne : b ≠ st.bucket := by
    rintro rfl
    exact h.poisoned (h.run.executing_count (List.mem_of_getElem? hst)).1
  unfold LoopState.handleCompletion
  cases result.err with
  | none => exact (Failed.complete ⟨h.run.succeed hst,h.poisoned,h.started⟩ _).dispatch
  | some cause =>
    refine (Failed.complete ⟨h.run.fail hst cause,?_,h.started⟩ _).dispatch
    show Function.update s.poisoned st.bucket (some cause) b ≠ none
    rw [Function.update_of_ne hne]
    exact h.poisoned

omit h

theorem failed_of_handleCompletion {index : Nat} {st : Started ι τ} {result : AttemptResult} (h : RunInv c s)
    (hst : s.executing[index]? = some st) (hf : result.err ≠ none) (completeBatch : CompleteBatch ι τ) :
    Failed c st.bucket (s.startedAt st.bucket) (s.handleCompletion c completeBatch index st result) := by
  unfold LoopState.handleCompletion
  cases herr : result.err with
  | none => exact absurd herr hf
  | some cause =>
    refine (Failed.complete ⟨h.fail hst cause,?_,rfl⟩ _).dispatch
    simp [poison]
end LoopState

namespace WriterLoop
variable {ι τ φ : Type} {w : WriterLoop ι τ φ} {s s' : WriterState ι τ φ} {e : LoopEvent ι}

@[simp] theorem settle_loop (s : WriterState ι τ φ) : (settle s).loop = s.loop := by
  unfold settle
  split
  · split
    · rfl
    · split <;> rfl
  · rfl

@[simp] theorem settle_front (s : WriterState ι τ φ) : (settle s).front = s.front := by
  unfold settle
  split
  · split
    · rfl
    · split <;> rfl
  · rfl

@[simp] theorem flushAll_loop (s : WriterState ι τ φ) (kind : Drain) :
    (w.flushAll s kind).loop = (s.loop.queueAll w.config w.completeBatch).1 := settle_loop _

@[simp] theorem flushAll_front (s : WriterState ι τ φ) (kind : Drain) : (w.flushAll s kind).front = s.front :=
  settle_front _
/-- Everything a step can be. -/
inductive Steps (w : WriterLoop ι τ φ) (s : WriterState ι τ φ) : LoopEvent ι → WriterState ι τ φ → Prop
  | canceled (x : ι) (err : GoError) (hmode : s.mode = .running) :
      Steps w s (.item x (some err)) { s with loop := s.loop.complete [(x, { err := some err })] }
  | add (x : ι) {front : φ} {loop : LoopState ι τ} (hmode : s.mode = .running)
      (hadd : w.add s.front s.loop x = some (front, loop)) :
      Steps w s (.item x none) { s with front := front, loop := loop }
  | flush (hmode : s.mode = .running) : Steps w s .flush (w.flushAll s .flush)
  | close (hmode : s.mode = .running) : Steps w s .close (w.flushAll s .close)
  | timer (hmode : s.mode = .running) (harmed : s.loop.timerArmed = true) :
      Steps w s .timer { s with loop := (s.loop.queueAll w.config w.completeBatch).1 }
  | completion {index : Nat} {st : Started ι τ} (result : AttemptResult) (hmode : s.mode = .running)
      (hst : s.loop.executing[index]? = some st) :
      Steps w s (.completion index result)
        { s with loop := s.loop.handleCompletion w.config w.completeBatch index st result }
  | drain {index : Nat} {st : Started ι τ} {kind : Drain} {errors : List GoError} (result : AttemptResult)
      (hmode : s.mode = .draining kind errors) (hst : s.loop.executing[index]? = some st) :
      Steps w s (.completion index result) (settle { s with
        loop := s.loop.handleCompletion w.config w.completeBatch index st result
        mode := .draining kind (errors ++ result.err.toList) })
  | finish {errors : List GoError} (hmode : s.mode = .closing errors) :
      Steps w s .finish { s with mode := .stopped errors }

theorem step_cases (h : w.step s e = some s') : Steps w s e s' := by
  obtain ⟨front,loop,mode,replies⟩ := s
  cases e with
  | item x canceled =>
    cases mode with
    | running =>
      cases canceled with
      | some err => exact some.inj h ▸ .canceled x err rfl
      | none =>
        obtain ⟨⟨front',loop'⟩,hadd,rfl⟩ := map_eq_some_iff.mp h
        exact .add x rfl hadd
    | _ => simp [step] at h
  | flush =>
    cases mode with
    | running => exact some.inj h ▸ .flush rfl
    | _ => simp [step] at h
  | close =>
    cases mode with
    | running => exact some.inj h ▸ .close rfl
    | _ => simp [step] at h
  | timer =>
    cases mode with
    | running =>
      cases ha : loop.timerArmed with
      | true =>
        simp only [step,ha] at h
        exact some.inj h ▸ .timer rfl ha
      | false => simp [step,ha] at h
    | _ => simp [step] at h
  | completion index result =>
    cases hst : loop.executing[index]? with
    | none => simp [step,hst] at h
    | some st =>
      cases mode with
      | running =>
        simp only [step,hst] at h
        exact some.inj h ▸ .completion result rfl hst
      | draining kind errors =>
        simp only [step,hst] at h
        exact some.inj h ▸ .drain result rfl hst
      | _ => simp [step,hst] at h
  | finish =>
    cases mode with
    | closing errors => exact some.inj h ▸ .finish rfl
    | _ => simp [step] at h

theorem step_front (h : w.step s e = some s') :
    s'.front = s.front ∨ ∃ x loop, e = .item x none ∧ w.add s.front s.loop x = some (s'.front, loop) := by
  cases step_cases h with
  | add x hm hadd => exact .inr ⟨x,_,rfl,hadd⟩
  | flush hm => exact .inl (flushAll_front s .flush)
  | close hm => exact .inl (flushAll_front s .close)
  | drain result hm hst => exact .inl (settle_front _)
  | _ => exact .inl rfl
/-- A property of the loop state that completing items, the operations of `add`, `queueAll` and
`handleCompletion` keep is kept by every step. -/
theorem loop_invariant {P : LoopState ι τ → Prop} (hco : ∀ l results, P l → P (l.complete results))
    (hops : ∀ l xs l', P l → Ops w.config w.targets w.completeBatch l xs l' → P l')
    (hq : ∀ l, P l → P (l.queueAll w.config w.completeBatch).1)
    (hc : ∀ l index st result, P l → l.executing[index]? = some st →
      P (l.handleCompletion w.config w.completeBatch index st result))
    (h : w.step s e = some s') (hp : P s.loop) : P s'.loop := by
  cases step_cases h with
  | canceled x err hm => exact hco _ _ hp
  | add x hm hadd => exact hops _ _ _ hp (w.add_ops hadd)
  | flush | close =>
    rw [flushAll_loop]
    exact hq _ hp
  | timer hm ha => exact hq _ hp
  | completion result hm hst => exact hc _ _ _ _ hp hst
  | drain result hm hst =>
    rw [settle_loop]
    exact hc _ _ _ _ hp hst
  | finish hm => exact hp

theorem step_inv (h : w.step s e = some s') (hinv : s.loop.Inv w.config w.targets) : s'.loop.Inv w.config w.targets :=
  loop_invariant (fun _ results hl => hl.complete results) (fun _ _ _ hl hops => hl.ops hops)
    (fun _ hl => hl.queueAll w.completeBatch) (fun _ _ _ result hl hst => hl.handleCompletion hst w.completeBatch result)
    h hinv

theorem reachable_inv (h : w.system.Reachable s) : s.loop.Inv w.config w.targets := by
  refine System.Reachable.invariant (P := fun s => s.loop.Inv w.config w.targets) ?_ ?_ h
  · rintro s rfl
    exact .initial
  · intro s e s' _ hinv hs
    exact step_inv hs hinv

theorem run_failed {b : Int} {batches : List (Started ι τ)} {es : List (LoopEvent ι)}
    (h : s.loop.Failed w.config b batches) (hrun : w.system.Run s es s') : s'.loop.Failed w.config b batches := by
  induction hrun with
  | nil => exact h
  | snoc _ hs ih =>
    exact loop_invariant (fun _ results hl => hl.complete results) (fun _ _ _ hl hops => hl.ops hops)
      (fun _ hl => hl.queueAll w.completeBatch)
      (fun _ _ _ result hl hst => hl.handleCompletion hst w.completeBatch result) hs ih
/-- The effect of an event on the routing state and the view. -/
def viewStep (w : WriterLoop ι τ φ) (v : φ × LoopState.View ι τ) : LoopEvent ι → φ × LoopState.View ι τ
  | .item _ (some _) => v
  | .item x none =>
    match w.add v.1 (.ofView v.2) x with
    | some (front, loop) => (front, loop.view)
    | none => v
  | .flush | .close | .timer => (v.1, v.2.flushAll w.config)
  | .completion _ _ => v
  | .finish => v

theorem step_view (h : w.step s e = some s') : (s'.front, s'.loop.view) = w.viewStep (s.front, s.loop.view) e := by
  cases step_cases h with
  | canceled x err hm => rfl
  | add x hm hadd =>
    have := w.add_view s.front s.loop x
    rw [hadd] at this
    obtain ⟨r,hr,heq⟩ := map_eq_some_iff.mp this.symm
    simp only [viewStep,hr]
    exact heq.symm
  | flush | close | timer | completion | drain => simp [viewStep]
  | finish hm => rfl
/-- The commands and timer firings, as opposed to what completions bring. -/
def frontEvent : LoopEvent ι → Bool
  | .completion _ _ => false
  | .finish => false
  | _ => true

theorem run_view {es : List (LoopEvent ι)} (h : w.system.Run s es s') :
    (s'.front, s'.loop.view) = (es.filter frontEvent).foldl w.viewStep (s.front, s.loop.view) := by
  induction h with
  | nil => rfl
  | @snoc s' s'' es e _ hs ih =>
    rw [step_view hs,ih,List.filter_append,List.foldl_append]
    cases e <;> rfl
end WriterLoop
end FlussGo
