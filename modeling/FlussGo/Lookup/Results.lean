import FlussGo.Lookup.Progress
import FlussGo.Row.Compacted
/-!
# The results of lookups

Where the result of a task comes from, and that a call puts the result of each key in the key's place.
-/
namespace FlussGo
open Outcome List LookupCall
namespace LookupState
variable {c : Lookuper} {schemas : Int → Schema} {s s' : LookupState} {e : LookupEvent} {id : Nat}
  {raw : RawLookupResult} {call call' : LookupCall}

section Later
/-- Contexts stay done, a closed lookuper stays closed, and replies are not forgotten. -/
structure Onward (s s' : LookupState) : Prop where
  contexts : ∀ ctx err, s.contextErr ctx = some err → s'.contextErr ctx = some err
  closed : s.closed = true → s'.closed = true
  replies : s.replies ⊆ s'.replies

private theorem Onward.refl (s : LookupState) : Onward s s := ⟨fun _ _ h => h,fun h => h,List.Subset.refl _⟩

theorem Moves.onward (h : Moves c schemas s e s') : Onward s s' := by
  cases h with
  | @cancel ctx err hctx =>
    refine { Onward.refl s with contexts := ?_ }
    intro ctx' err' herr
    have hold : s.canceled.lookup ctx' = some err' := herr
    show (s.canceled ++ [(ctx, err)]).lookup ctx' = some err'
    rw [lookup_append,hold]
    rfl
  | close hs => exact { Onward.refl s with closed := fun _ => rfl }
  | scheduler hm =>
    cases hm with
    | range | dispatch =>
      unfold dispatchGroup
      split <;> exact { Onward.refl s with }
    | _ => exact { Onward.refl s with }
  | worker hw hm =>
    cases hm with
    | attempt =>
      unfold attempt
      split
      · exact { Onward.refl s with }
      · exact { Onward.refl s with replies := subset_append_left _ _ }
    | reply => exact { Onward.refl s with replies := subset_append_left _ _ }
    | _ => exact { Onward.refl s with }
  | @complete _ id raw s₁ hc =>
    have hn : Onward s s₁ := by
      cases hc <;> exact { Onward.refl s with }
    exact complete_frame hn fun _ _ _ => { hn with }
  | _ => exact { Onward.refl s with }
end Later

section Calls
/-- The task was made by the call for a key with this encoding. -/
def MadeFor (s : LookupState) (call : LookupCall) (encoded : Bytes) (bucket : Int) (id : Nat) : Prop :=
  ∃ task, s.tasks[id]? = some task ∧ task.ctx = call.ctx ∧ task.group = ⟨call.mode,bucket⟩ ∧ task.encoded = encoded
/-- A result that `Lookup` or `PrefixLookup` has still to wait for, or an error without a task. -/
inductive Entry (c : Lookuper) (s : LookupState) (call : LookupCall) (key : Row) : Option Nat → LookupResult → Prop
  | refused {result : LookupResult} (hkey : result.key = key) (herr : result.err ≠ none) : Entry c s call key none result
  | queued {encoded : Bytes} {bucket : Int} {id : Nat} (hencode : c.encode call.mode key = .ok (encoded, bucket))
      (hmade : s.MadeFor call encoded bucket id) : Entry c s call key (some id) { key := key, bucket := bucket }
/-- A result of the call for the key. -/
inductive Settled (c : Lookuper) (schemas : Int → Schema) (s : LookupState) (call : LookupCall) (key : Row) :
    LookupResult → Prop
  | refused {result : LookupResult} (hkey : result.key = key) (herr : result.err ≠ none) : Settled c schemas s call key result
  | answered {encoded : Bytes} {bucket : Int} {task : LookupTask} {raw : RawLookupResult} {result : LookupResult}
      (unresolved : Nat → Option GoError) (hencode : c.encode call.mode key = .ok (encoded, bucket))
      (htask : task ∈ s.tasks) (hgroup : task.group = ⟨call.mode,bucket⟩) (hencoded : task.encoded = encoded)
      (hraw : task.result = some raw)
      (hawait : awaitLookup call.mode (fun position => decodeLookupValueWithResolver
        (resolveSchema schemas (unresolved position)) c.table) raw { key := key, bucket := bucket } = .ok result) :
      Settled c schemas s call key result
/-- The keys before the rest have their tasks and results, of which the first `n` are settled. -/
structure Progressed (c : Lookuper) (schemas : Int → Schema) (s : LookupState) (call : LookupCall) (n : Nat)
    (rest : List Row) : Prop where
  keys : ∃ done, call.keys = done ++ rest ∧ done.length = call.results.length
  tasks : call.tasks.length = call.results.length
  settled : ∀ j key result, j < n → call.keys[j]? = some key → call.results[j]? = some result →
    Settled c schemas s call key result
  entries : ∀ j key task result, n ≤ j → call.keys[j]? = some key → call.tasks[j]? = some task →
    call.results[j]? = some result → Entry c s call key task result

def CallLaw (c : Lookuper) (schemas : Int → Schema) (s : LookupState) (call : LookupCall) : Prop :=
  match call.phase with
  | .entering | .enteringContext => call.tasks = [] ∧ call.results = []
  | .encoding rest => Progressed c schemas s call 0 rest
  | .checking key rest | .checkingContext key rest | .choosing key rest =>
    Progressed c schemas s call 0 (key.key :: rest) ∧ c.encode call.mode key.key = .ok (key.encoded, key.bucket)
  | .holding id key rest | .sending id key rest => (Progressed c schemas s call 0 (key.key :: rest) ∧
      c.encode call.mode key.key = .ok (key.encoded, key.bucket)) ∧ s.MadeFor call key.encoded key.bucket id
  | .dropping id key rest e => (Progressed c schemas s call 0 (key.key :: rest) ∧
      s.MadeFor call key.encoded key.bucket id) ∧ s.Refuses call.ctx e
  | .awaiting index => Progressed c schemas s call index []
  | .returned => List.Forall₂ (Settled c schemas s call) call.keys call.results

section Later
theorem TasksStep.madeFor {encoded : Bytes} {bucket : Int} (hs : TasksStep c s s')
    (h : s.MadeFor call encoded bucket id) : s'.MadeFor call encoded bucket id := by
  obtain ⟨task,hid,hctx,hg,he⟩ := h
  obtain ⟨result,hid',_⟩ := hs.task hid
  exact ⟨_,hid',hctx,hg,he⟩

theorem TasksStep.settled {key : Row} {result : LookupResult} (hs : TasksStep c s s')
    (h : Settled c schemas s call key result) : Settled c schemas s' call key result := by
  cases h with
  | refused hkey herr => exact .refused hkey herr
  | answered unresolved hen ht hg he hraw ha =>
    obtain ⟨i,hi,hget⟩ := getElem_of_mem ht
    obtain ⟨result',hid',hk⟩ := hs.task (List.getElem?_eq_some_iff.mpr ⟨hi,hget⟩)
    exact .answered unresolved hen (mem_of_getElem? hid') hg he (hk _ hraw) ha

theorem TasksStep.entry {key : Row} {task : Option Nat} {result : LookupResult} (hs : TasksStep c s s')
    (h : Entry c s call key task result) : Entry c s' call key task result := by
  cases h with
  | refused hkey herr => exact .refused hkey herr
  | queued he hm => exact .queued he (hs.madeFor hm)

theorem TasksStep.progressed {n : Nat} {rest : List Row} (hs : TasksStep c s s')
    (h : Progressed c schemas s call n rest) : Progressed c schemas s' call n rest where
  keys := h.keys
  tasks := h.tasks
  settled j key result hj hkey hresult := hs.settled (h.settled j key result hj hkey hresult)
  entries j key task result hj hkey htask hresult := hs.entry (h.entries j key task result hj hkey htask hresult)

theorem TasksStep.callLaw (hstep : TasksStep c s s') (hon : Onward s s') (h : CallLaw c schemas s call) :
    CallLaw c schemas s' call := by
  unfold CallLaw at h ⊢
  cases hphase : call.phase with
  | entering | enteringContext => rwa [hphase] at h
  | encoding | awaiting =>
    rw [hphase] at h
    exact hstep.progressed h
  | checking | checkingContext | choosing =>
    rw [hphase] at h
    exact ⟨hstep.progressed h.1,h.2⟩
  | holding | sending =>
    rw [hphase] at h
    exact ⟨⟨hstep.progressed h.1.1,h.1.2⟩,hstep.madeFor h.2⟩
  | dropping =>
    rw [hphase] at h
    refine ⟨⟨hstep.progressed h.1.1,hstep.madeFor h.1.2⟩,?_⟩
    exact h.2.imp (And.imp_right hon.closed) (hon.contexts _ _)
  | returned =>
    rw [hphase] at h
    exact List.Forall₂.imp (fun _ _ hsettled => hstep.settled hsettled) h
end Later

section Loop
variable {key : Row} {rest : List Row} {result : LookupResult} {task : Option Nat}

private theorem Entry.of_call (h : Entry c s call key task result) (hm : call'.mode = call.mode)
    (hctx : call'.ctx = call.ctx) : Entry c s call' key task result := by
  cases h with
  | refused hkey herr => exact .refused hkey herr
  | queued hen hma =>
    refine .queued (by rwa [hm]) ?_
    rwa [MadeFor,hctx,hm]

private theorem Settled.of_call (h : Settled c schemas s call key result) (hm : call'.mode = call.mode) :
    Settled c schemas s call' key result := by
  cases h with
  | refused hkey herr => exact .refused hkey herr
  | answered unresolved he ht hg hen hraw ha =>
    exact .answered unresolved (by rwa [hm]) ht (by rwa [hm]) hen hraw (by rwa [hm])

private theorem Progressed.append (h : Progressed c schemas s call 0 (key :: rest))
    (ht : call'.tasks = call.tasks ++ [task]) (hr : call'.results = call.results ++ [result])
    (hke : call'.keys = call.keys) (hm : call'.mode = call.mode) (hctx : call'.ctx = call.ctx)
    (he : Entry c s call key task result) : Progressed c schemas s call' 0 rest := by
  obtain ⟨done,hd,hl⟩ := h.keys
  refine ⟨⟨done ++ [key],?_,?_⟩,?_,?_,?_⟩
  · rw [hke,hd,append_assoc]
    rfl
  · rw [hr,length_append,length_append,hl]
    rfl
  · rw [ht,hr,length_append,length_append,h.tasks]
    rfl
  · intro j key result hj
    omega
  intro j key' task' result' _ hkey' ht' hr'
  rw [hke] at hkey'
  rw [ht,getElem?_append,h.tasks] at ht'
  rw [hr,getElem?_append] at hr'
  split at ht'
  next hlt =>
    rw [if_pos hlt] at hr'
    exact (h.entries j key' task' result' (Nat.zero_le j) hkey' ht' hr').of_call hm hctx
  rename_i hge
  rw [if_neg hge] at hr'
  have hz : j - call.results.length = 0 := by
    by_contra hne
    simp [hne] at ht'
  rw [hz] at ht' hr'
  cases ht'
  cases hr'
  have hj : j = done.length := by omega
  rw [hd,hj,getElem?_append_right (Nat.le_refl _),Nat.sub_self] at hkey'
  cases hkey'
  exact he.of_call hm hctx

private theorem Progressed.goto {n : Nat} (h : Progressed c schemas s call n rest) (phase : LookupPhase) :
    Progressed c schemas s (call.goto phase) n rest where
  keys := h.keys
  tasks := h.tasks
  settled j key result hj hkey hr := (h.settled j key result hj hkey hr).of_call rfl
  entries j key task result hj hkey ht hr := (h.entries j key task result hj hkey ht hr).of_call rfl rfl

private theorem Progressed.settle {index : Nat} (h : Progressed c schemas s call index [])
    (ht : call.tasks[index]? = some task)
    (hs : ∀ key, call.keys[index]? = some key → Settled c schemas s call key result) :
    Progressed c schemas s (call.settle index result) (index + 1) [] := by
  obtain ⟨done,hd,hl⟩ := h.keys
  have hlt : index < call.results.length := h.tasks ▸ (lt_of_getElem? ht)
  refine ⟨⟨done,hd,?_⟩,?_,?_,?_⟩
  · rw [LookupCall.settle,length_set,hl]
  · rw [LookupCall.settle,length_set,h.tasks]
  · intro j key result' hj hkey hr'
    by_cases heq : j = index
    · subst heq
      rw [LookupCall.settle,getElem?_set_self hlt] at hr'
      cases hr'
      exact (hs key hkey).of_call rfl
    · rw [LookupCall.settle,getElem?_set_ne (Ne.symm heq)] at hr'
      exact (h.settled j key result' (by omega) hkey hr').of_call rfl
  · intro j key task' result' hj hkey ht' hr'
    have hne : index ≠ j := by omega
    rw [LookupCall.settle,getElem?_set_ne hne] at hr'
    exact (h.entries j key task' result' (by omega) hkey ht' hr').of_call rfl rfl

private theorem callLaw_refuse (call : LookupCall) (err : GoError) : CallLaw c schemas s (call.refuse err) := by
  show List.Forall₂ _ call.keys (call.keys.map _)
  rw [List.forall₂_map_right_iff,List.forall₂_same]
  exact fun key _ => .refused rfl (by simp)

private theorem CallMoves.callLaw (h : CallLaw c schemas s call) (hmo : CallMoves c schemas s call call') :
    CallLaw c schemas s call' := by
  unfold CallLaw at h
  cases hmo with
  | refuse hp herr => exact callLaw_refuse call _
  | entered hp =>
    rw [hp] at h
    exact h
  | begun hp =>
    rw [hp] at h
    refine ⟨⟨[],rfl,?_⟩,?_,?_,?_⟩
    · rw [goto,h.2]
      rfl
    · rw [goto,h.1,h.2]
      rfl
    · intro j key result hj
      omega
    · intro j key task result _ _ ht
      rw [goto,h.1] at ht
      simp at ht
  | encoded hp he =>
    rw [hp] at h
    exact ⟨h.goto _,he⟩
  | unencoded hp he =>
    rw [hp] at h
    exact Progressed.append h rfl rfl rfl rfl rfl (.refused rfl (by simp))
  | checked hp | chooses hp =>
    rw [hp] at h
    exact ⟨h.1.goto _,h.2⟩
  | @fail key rest err hp herr =>
    have hpr : Progressed c schemas s call 0 (key.key :: rest) := by
      rcases hp with hp | hp | hp <;> rw [hp] at h <;> exact h.1
    exact Progressed.append hpr rfl rfl rfl rfl rfl (.refused rfl (by simp))
  | await hp =>
    rw [hp] at h
    exact h.goto _
  | @pass index hp ht =>
    rw [hp] at h
    have hlt : index < call.results.length := h.tasks ▸ lt_of_getElem? ht
    have hs : Progressed c schemas s (call.settle index call.results[index]) (index + 1) [] := by
      refine h.settle ht fun key hkey => ?_
      cases h.entries index key _ _ (Nat.le_refl _) hkey ht (getElem?_eq_getElem hlt) with
      | refused hkey herr => exact .refused hkey herr
    rwa [settle,set_getElem_self hlt] at hs
  | canceled hp ht hr herr =>
    rw [hp] at h
    refine h.settle ht ?_
    intro key hkey
    cases h.entries _ key _ _ (Nat.le_refl _) hkey ht hr with
    | queued he hm => exact .refused rfl (by simp)
  | received unresolved hp ht hr hid hraw ha =>
    rw [hp] at h
    refine h.settle ht ?_
    intro key hkey
    cases h.entries _ key _ _ (Nat.le_refl _) hkey ht hr with
    | queued he hm =>
      obtain ⟨task,hid',_,hg,henc⟩ := hm
      rw [hid] at hid'
      cases hid'
      exact .answered unresolved he (mem_of_getElem? hid) hg henc hraw ha
  | @returns index hp ht =>
    rw [hp] at h
    obtain ⟨done,hd,hl⟩ := h.keys
    have hle : call.results.length ≤ index := h.tasks ▸ List.getElem?_eq_none_iff.mp ht
    show List.Forall₂ (Settled c schemas s (call.goto .returned)) call.keys call.results
    rw [append_nil] at hd
    refine List.forall₂_iff_get.mpr ⟨by rw [hd,hl],?_⟩
    intro j hj hj'
    exact (h.goto .returned).settled j _ _ (by omega) (getElem?_eq_getElem hj) (getElem?_eq_getElem hj')
end Loop

def CallsInv (c : Lookuper) (schemas : Int → Schema) (s : LookupState) : Prop := ∀ call ∈ s.calls, CallLaw c schemas s call

private theorem CallsInv.law {i : Nat} {phase : LookupPhase} (h : CallsInv c schemas s) (hc : s.calls[i]? = some call)
    (hp : call.phase = phase) : CallLaw c schemas s (call.goto phase) := by
  subst hp
  exact h _ (mem_of_getElem? hc)

private theorem CallsInv.set {i : Nat} (h : CallsInv c schemas s) (hs : TasksStep c s s') (hon : Onward s s')
    (hca : s'.calls = s.calls.set i call') (hlaw : CallLaw c schemas s' call') : CallsInv c schemas s' := by
  intro call hc
  rw [hca] at hc
  rcases mem_or_eq_of_mem_set hc with hmem | rfl
  · exact hs.callLaw hon (h call hmem)
  · exact hlaw

private theorem CallsInv.same (h : CallsInv c schemas s) (hs : TasksStep c s s') (hon : Onward s s')
    (hca : s'.calls = s.calls) : CallsInv c schemas s' := by
  intro call hc
  rw [hca] at hc
  exact hs.callLaw hon (h call hc)

private theorem callLaw_start (ctx : Nat) (mode : LookupMode) (keys : List Row) :
    CallLaw c schemas s (start c ctx mode keys) := by
  unfold start
  split
  next he =>
    show List.Forall₂ _ keys []
    rw [List.isEmpty_iff.mp he]
    exact .nil
  next =>
    split
    next => exact callLaw_refuse _ _
    next => exact ⟨rfl,rfl⟩

theorem CallsInv.step (h : CallsInv c schemas s) (hm : Moves c schemas s e s') : CallsInv c schemas s' := by
  have hs := hm.tasksStep
  have hon := hm.onward
  cases hm with
  | call ctx mode keys =>
    intro call hc
    rcases mem_append.mp hc with hc | hc
    · exact hs.callLaw hon (h call hc)
    · obtain rfl := mem_singleton.mp hc
      exact callLaw_start ctx mode keys
  | cancel | close | closeReturns => exact h.same hs hon rfl
  | callMoves hc hm =>
    have hlaw := h _ (mem_of_getElem? hc)
    exact h.set hs hon rfl (hs.callLaw hon (hm.callLaw hlaw))
  | lock hc hp hcl =>
    have hlaw := h.law hc hp
    refine h.set hs hon rfl (hs.callLaw hon ?_)
    exact ⟨⟨hlaw.1.1.goto _,hlaw.1.2⟩,hlaw.2⟩
  | drop hc hp herr =>
    have hlaw := h _ (mem_of_getElem? hc)
    refine h.set hs hon rfl (hs.callLaw hon ?_)
    unfold CallLaw at hlaw
    rcases hp with hp | hp <;> rw [hp] at hlaw <;> exact ⟨⟨hlaw.1.1.goto _,hlaw.2⟩,herr⟩
  | takeSlot hc hp hr =>
    have hlaw := h.law hc hp
    refine h.set hs hon rfl ⟨⟨hs.progressed (hlaw.1.goto _),hlaw.2⟩,?_⟩
    exact ⟨_,getElem?_concat_length,rfl,rfl,rfl⟩
  | send hc hp =>
    have hlaw := h.law hc hp
    refine h.set hs hon rfl (hs.progressed (s := s) ?_)
    exact Progressed.append hlaw.1.1 rfl rfl rfl rfl rfl (.queued hlaw.1.2 hlaw.2)
  | scheduler hm | worker _ hm => exact h.same hs hon hm.frame.2.2
  | complete hco =>
    have hca : ∀ s₁ : LookupState, ∀ id raw, (s₁.complete id raw).calls = s₁.calls := fun s₁ id raw =>
      complete_frame (P := fun s => s.calls = s₁.calls) rfl fun _ _ _ => rfl
    cases hco with
    | @call i call key rest err hc hp hraw =>
      have hlaw := h.law hc hp
      refine h.set hs hon (hca _ _ _) (hs.progressed (s := s) ?_)
      exact Progressed.append hlaw.1.1 rfl rfl rfl rfl rfl (.refused rfl (by simp))
    | _ => exact h.same hs hon (hca _ _ _)
end Calls

section Origins
/-- What a task is completed with: the error of its own context, `ErrClosed`, or what a request brought for it. -/
inductive Origin (s : LookupState) (task : LookupTask) (id : Nat) (raw : RawLookupResult) : Prop
  | canceled {err : GoError} (hraw : raw = { err := some err }) (herr : s.contextErr task.ctx = some err)
  | closed (hraw : raw = { err := some Sentinel.closed.error }) (hclosed : s.closed = true)
  | replied {r : LookupReply} (hr : r ∈ s.replies) (hraw : (id, raw) ∈ r.results)

def OriginInv (s : LookupState) : Prop :=
  ∀ id task raw, s.tasks[id]? = some task → task.result = some raw → Origin s task id raw

private theorem Origin.onward {task task' : LookupTask} (hon : Onward s s') (hctx : task'.ctx = task.ctx)
    (h : Origin s task id raw) : Origin s' task' id raw := by
  cases h with
  | canceled hraw herr => exact .canceled hraw (hon.contexts _ _ (hctx ▸ herr))
  | closed hraw hc => exact .closed hraw (hon.closed hc)
  | replied hr hraw => exact .replied (hon.replies hr) hraw

private theorem completes_origin {s₁ : LookupState} {task : LookupTask} (hinv : LookupInv c s)
    (hca : CallsInv c schemas s)
    (h : Completes c s id raw s₁) (hid : s.tasks[id]? = some task) : Origin s task id raw := by
  cases h with
  | call hcal hp hraw =>
    have hlaw := hca.law hcal hp
    obtain ⟨⟨_,task',hid',hctx,_⟩,⟨rfl,hc⟩ | herr⟩ := hlaw
    · exact .closed hraw hc
    · rw [hid] at hid'
      cases hid'
      exact .canceled hraw (by rw [hctx]; exact herr)
  | receive _ _ hid' herr hraw | filter _ hid' herr hraw =>
    rw [hid] at hid'
    cases hid'
    exact .canceled hraw herr
  | stop hs _ hraw | drain hs _ hraw => exact .closed hraw (hinv.life.stops (by rw [hs]; rfl))
  | worker hw =>
    obtain ⟨r,hr,hre⟩ := hinv.batches.workers _ (mem_of_getElem? hw) _ mem_cons_self
    exact .replied hr hre

private theorem OriginInv.of_same (h : OriginInv s) (hon : Onward s s') (ht : s'.tasks = s.tasks) : OriginInv s' := by
  intro id task raw hid hraw
  rw [ht] at hid
  exact (h id task raw hid hraw).onward hon rfl

theorem OriginInv.step (hinv : LookupInv c s) (hca : CallsInv c schemas s) (h : OriginInv s)
    (hm : Moves c schemas s e s') : OriginInv s' := by
  have hon := hm.onward
  cases hm with
  | takeSlot hcal hp hro =>
    intro id task raw hid hraw
    rcases of_getElem?_concat hid with hid | ⟨-,rfl⟩
    · exact (h id task raw hid hraw).onward hon rfl
    · simp at hraw
  | @complete _ id raw s₁ hc =>
    have ht : s₁.tasks = s.tasks := by cases hc <;> rfl
    rcases complete_cases s₁ id raw with ⟨task,hid,_,heq⟩ | ⟨_,heq⟩
    · rw [heq] at hon ⊢
      rw [ht] at hid
      intro id' task' raw' hid' hraw'
      by_cases hs : id' = id
      · subst hs
        rw [ht,getElem?_set_self (lt_of_getElem? hid)] at hid'
        cases hid'
        cases hraw'
        exact (completes_origin hinv hca hc hid).onward hon (by rfl)
      · rw [ht,getElem?_set_ne (Ne.symm hs)] at hid'
        exact (h id' task' raw' hid' hraw').onward hon rfl
    · rw [heq] at hon ⊢
      exact h.of_same hon ht
  | scheduler hm | worker _ hm => exact h.of_same hon hm.frame.2.1
  | _ => exact h.of_same hon rfl

theorem results_reachable (hv : c.config.Valid) (h : (c.system schemas).Reachable s) :
    CallsInv c schemas s ∧ OriginInv s := by
  refine System.Reachable.invariant (P := fun s => CallsInv c schemas s ∧ OriginInv s) ?_ ?_ h
  · intro s hi
    obtain rfl := hi
    exact ⟨by simp [CallsInv],by simp [OriginInv]⟩
  · intro s e s' hr hinv hs
    have hm := step_moves hs
    exact ⟨hinv.1.step hm,hinv.2.step (lookupInv_reachable hv hr) hinv.1 hm⟩
end Origins

section Values
variable {α : Type}
/-- The backend returned one value per key, in the order of the keys; `V` says which values belong to a key. -/
def Paired (V : LookupGroup → Bytes → RawLookupResult → Prop) (s : LookupState) (r : LookupReply) : Prop :=
  ∀ values, r.reply = .ok values → ∃ keys, s.KeysOf r.tasks keys ∧ List.Forall₂ (V r.group) keys values.raw

private theorem mem_completeLookupBatch {mismatch : Nat → Nat → String} {f : α → RawLookupResult} {tasks : List Nat}
    {values : List α} (hl : values.length = tasks.length)
    (h : (id, raw) ∈ completeLookupBatch mismatch f tasks (.ok values)) : (id, raw) ∈ tasks.zip (values.map f) := by
  unfold completeLookupBatch at h
  simpa [hl] using h

private theorem err_completeLookupBatch {mismatch : Nat → Nat → String} {f : α → RawLookupResult}
    {tasks : List Nat} {err : GoError} (h : (id, raw) ∈ completeLookupBatch mismatch f tasks (.error err)) :
    raw.err ≠ none := by
  unfold completeLookupBatch at h
  obtain ⟨_,_,heq⟩ := mem_map.mp h
  cases heq
  simp

private theorem results_zip {r : LookupReply} {values : LookupValues} (hr : r.reply = .ok values)
    (hl : values.raw.length = r.tasks.length) (h : (id, raw) ∈ r.results) : (id, raw) ∈ r.tasks.zip values.raw := by
  unfold LookupReply.results at h
  cases values with
  | points | lists =>
    rw [hr] at h
    exact mem_completeLookupBatch (by simpa [LookupValues.raw] using hl) h

private theorem forall₂_zip {β γ : Type} {R : α → β → Prop} {Q : β → γ → Prop} {as : List α} {bs : List β} {cs : List γ}
    (hR : List.Forall₂ R as bs) (hQ : List.Forall₂ Q bs cs) {a : α} {x : γ} (h : (a, x) ∈ as.zip cs) :
    ∃ b, R a b ∧ Q b x := by
  induction hR generalizing cs with
  | nil => simp at h
  | cons hab hr ih =>
    cases hQ with
    | cons hbc hr' =>
      rcases mem_cons.mp h with heq | h
      · cases heq
        exact ⟨_,hab,hbc⟩
      · exact ih hr' h

private theorem paired_result {V : LookupGroup → Bytes → RawLookupResult → Prop} {r : LookupReply} {task : LookupTask}
    (hb : BatchInv c s) (hr : r ∈ s.replies) (hp : Paired V s r) (hid : s.tasks[id]? = some task)
    (hraw : (id, raw) ∈ r.results) (herr : raw.err = none) : V task.group task.encoded raw := by
  have hmem : id ∈ r.tasks := (results_tasks r id).mp (mem_map_of_mem hraw)
  obtain ⟨task',hid',hg⟩ := (hb.replies r hr).1.2 id hmem
  rw [hid] at hid'
  cases hid'
  cases hre : r.reply with
  | error err =>
    unfold LookupReply.results at hraw
    rw [hre] at hraw
    dsimp only at hraw
    split at hraw
    · exact absurd herr (err_completeLookupBatch hraw)
    · exact absurd herr (err_completeLookupBatch hraw)
  | ok values =>
    obtain ⟨keys,hk,hv⟩ := hp values hre
    have hl : values.raw.length = r.tasks.length := hv.length_eq.symm.trans hk.length_eq.symm
    obtain ⟨key,⟨task',hid',he⟩,hva⟩ := forall₂_zip hk hv (results_zip hre hl hraw)
    rw [hid] at hid'
    cases hid'
    rw [hg,he]
    exact hva

private theorem awaitLookup_eq_ok {mode : LookupMode} {decode : Nat → Bytes → Go Row} {result result' : LookupResult}
    (h : awaitLookup mode decode raw result = .ok result') :
    result'.key = result.key ∧ (result'.err = none → raw.err = none) := by
  cases mode with
  | pointLookup =>
    simp only [awaitLookup,awaitPointLookup] at h
    split at h
    · cases h
      exact ⟨rfl,by simp⟩
    · cases h
      exact ⟨rfl,by simp⟩
    rename_i herr _
    split at h
    · cases h
      exact ⟨rfl,fun _ => herr⟩
    · cases h
      exact ⟨rfl,by simp⟩
    · simp at h
  | prefixLookup =>
    simp only [awaitLookup,awaitPrefixLookup] at h
    split at h
    · cases h
      exact ⟨rfl,by simp⟩
    next herr =>
      obtain ⟨⟨rows,err⟩,_,h⟩ := of_bind h
      cases h
      exact ⟨rfl,fun _ => herr⟩
end Values
/-- What callers can rely on, in one state of a run. -/
structure Served (c : Lookuper) (schemas : Int → Schema) (s : LookupState) : Prop where
  /-- Every task with a slot is completed at most once, and gives its slot back with that. -/
  once : (s.completions.map Prod.fst).Nodup
  completed : ∀ id raw, (id, raw) ∈ s.completions ↔ ∃ task, s.tasks[id]? = some task ∧ task.result = some raw
  released : s.slots = s.tasks.length - s.completions.length
  /-- It is completed whatever happens next, and however the backend answers. -/
  inevitable : (c.system schemas).Inevitable (fun e => e.inner = true) (fun s => ∀ id, ¬s.Pending id) s
  held : s.slots ≤ c.config.maxQueuedKeys
  requests : ∀ r ∈ s.requests, 1 ≤ r.keys.length ∧ (r.keys.length : Int) ≤ c.config.maxBatchKeys ∧
    s.KeysOf r.tasks r.keys ∧ ∀ id ∈ r.tasks, s.OfGroup r.group id
  /-- A task gets the value of its own key, and a call the results of its keys in their places. -/
  values : ∀ V : LookupGroup → Bytes → RawLookupResult → Prop, (∀ r ∈ s.replies, Paired V s r) →
    (∀ task ∈ s.tasks, ∀ raw, task.result = some raw → raw.err = none → V task.group task.encoded raw) ∧
    ∀ call ∈ s.calls, call.phase = .returned → List.Forall₂ (fun key result => result.key = key ∧ (result.err = none →
      ∃ (encoded : Bytes) (bucket : Int) (raw : RawLookupResult) (unresolved : Nat → Option GoError),
        c.encode call.mode key = .ok (encoded, bucket) ∧
        V ⟨call.mode,bucket⟩ encoded raw ∧ awaitLookup call.mode (fun position => decodeLookupValueWithResolver
          (resolveSchema schemas (unresolved position)) c.table) raw { key := key, bucket := bucket } = .ok result))
      call.keys call.results
  /-- No other context than the task's own has a part in its result. -/
  origins : ∀ id task raw, s.tasks[id]? = some task → task.result = some raw → Origin s task id raw
  /-- What is not completed when `Close` returns is with the call that made it, which has not queued it and will not. -/
  closed : s.closeReturned = true → ∀ id, s.Pending id → id ∉ s.queue ∧ ∃ call ∈ s.calls, id ∈ call.phase.held ∧
    call.phase.sends = false ∧ ∃ encoded bucket, s.MadeFor call encoded bucket id

private theorem CallLaw.madeFor (h : CallLaw c schemas s call) (hid : id ∈ call.phase.held) :
    ∃ encoded bucket, s.MadeFor call encoded bucket id := by
  unfold CallLaw at h
  cases hp : call.phase with
  | holding | sending =>
    rw [hp] at h hid
    obtain rfl := mem_singleton.mp hid
    exact ⟨_,_,h.2⟩
  | dropping =>
    rw [hp] at h hid
    obtain rfl := mem_singleton.mp hid
    exact ⟨_,_,h.1.2⟩
  | _ => simp [hp,LookupPhase.held] at hid

private theorem closed_pending (hv : c.config.Valid) (h : LookupInv c s) (hca : CallsInv c schemas s)
    (hr : s.closeReturned = true) (hid : s.Pending id) : id ∉ s.queue ∧ ∃ call ∈ s.calls, id ∈ call.phase.held ∧
      call.phase.sends = false ∧ ∃ encoded bucket, s.MadeFor call encoded bucket id := by
  have hf := h.life.done (h.life.returned hr)
  have hcl := h.life.stops (by rw [hf]; rfl)
  have hw := h.life.finished hf
  have hl : ∀ phase ∈ s.workers, WorkerPhase.tasks phase = [] := by
    intro phase hp
    rw [hw phase hp]
    rfl
  have hq : s.queue = [] := h.life.queue (by rw [hf]; rfl)
  refine ⟨by simp [hq],?_⟩
  rcases mem_covered.mp (h.waits.covered id hid) with hid | hid | hid | hid
  · rcases mem_append.mp hid with hid | hid
    · obtain ⟨call,hc,hh⟩ := mem_flatMap.mp hid
      exact ⟨call,hc,hh,h.life.sending hcl call hc,(hca call hc).madeFor hh⟩
    · simp [hq] at hid
  · simp [scheduled,hf] at hid
  · -- A worker leaves when there are no jobs left, and no job is sent after that.
    have hle := h.life.workers
    have hpos := hv.maxInFlightRequests
    have hlt : 0 < s.workers.length := by omega
    have he := hw _ (getElem_mem hlt)
    simp [(h.life.exited (he ▸ getElem_mem hlt)).2] at hid
  · obtain ⟨phase,hp,hid⟩ := mem_flatMap.mp hid
    simp [hl phase hp] at hid

private theorem served_values (h : LookupInv c s) (hc : CallsInv c schemas s) (ho : OriginInv s)
    {V : LookupGroup → Bytes → RawLookupResult → Prop} (hp : ∀ r ∈ s.replies, Paired V s r) :
    (∀ task ∈ s.tasks, ∀ raw, task.result = some raw → raw.err = none → V task.group task.encoded raw) ∧
    ∀ call ∈ s.calls, call.phase = .returned → List.Forall₂ (fun key result => result.key = key ∧ (result.err = none →
      ∃ (encoded : Bytes) (bucket : Int) (raw : RawLookupResult) (unresolved : Nat → Option GoError),
        c.encode call.mode key = .ok (encoded, bucket) ∧ V ⟨call.mode,bucket⟩ encoded raw ∧
        awaitLookup call.mode (fun position => decodeLookupValueWithResolver
          (resolveSchema schemas (unresolved position)) c.table) raw { key := key, bucket := bucket } = .ok result))
      call.keys call.results := by
  have hv : ∀ task ∈ s.tasks, ∀ raw, task.result = some raw → raw.err = none → V task.group task.encoded raw := by
    intro task ht raw hraw herr
    obtain ⟨id,hlt,hget⟩ := getElem_of_mem ht
    have hid : s.tasks[id]? = some task := List.getElem?_eq_some_iff.mpr ⟨hlt,hget⟩
    cases ho id task raw hid hraw with
    | canceled heq | closed heq => simp [heq] at herr
    | replied hr hre => exact paired_result h.batches hr (hp _ hr) hid hre herr
  refine ⟨hv,?_⟩
  intro call hca hph
  have hlaw := hc call hca
  unfold CallLaw at hlaw
  rw [hph] at hlaw
  refine List.Forall₂.imp ?_ hlaw
  intro key result hs
  cases hs with
  | refused hkey herr => exact ⟨hkey,fun hn => absurd hn herr⟩
  | answered unresolved hen ht hg he hraw ha =>
    obtain ⟨hkey,herr⟩ := awaitLookup_eq_ok ha
    refine ⟨hkey,fun hn => ⟨_,_,_,unresolved,hen,?_,ha⟩⟩
    rw [← hg,← he]
    exact hv _ ht _ hraw (herr hn)
end LookupState

theorem lookups_are_served (c : Lookuper) (hc : c.Created) (schemas : Int → Schema) (s : LookupState)
    (h : (c.system schemas).Reachable s) : s.Served c schemas := by
  have hvalid := hc.valid
  have hinv := LookupState.lookupInv_reachable hvalid h
  obtain ⟨hcalls,horigins⟩ := LookupState.results_reachable hvalid h
  refine ⟨hinv.tasks.nodup,hinv.tasks.completed,hinv.tasks.released,LookupState.tasks_completed hvalid h,
    hinv.tasks.slots_le,?_,?_,horigins,?_⟩
  · intro r hr
    obtain ⟨hne,hfits,hkeys⟩ := hinv.batches.requests r hr
    have hlength := hkeys.length_eq
    have hpos := length_pos_iff.mpr hne
    exact ⟨by omega,by have := hfits.1; omega,hkeys,hfits.2⟩
  · exact fun V hpaired => LookupState.served_values hinv hcalls horigins hpaired
  · exact fun hreturned id hid => LookupState.closed_pending hvalid hinv hcalls hreturned hid

def orderLeaders : IDMap ServerNode :=
  let node : ServerNode := ⟨1,"tablet:9123",.tabletServer⟩
  ((AList.insert 2 node ∅).insert 1 node).insert 0 node

theorem orderLookuper_created : orderLookuper.Created := by
  refine ⟨fun _ => .ok (9, orderLeaders),orderTable,[],?_,rfl⟩
  intro option ho
  simp at ho

private def slottedLookup : List LookupEvent :=
  [.call 0 .pointLookup [[.int32 5, .string [0x62]]], .inCall 0 .advance, .inCall 0 .advance, .inCall 0 .advance,
    .inCall 0 .advance, .inCall 0 .advance, .inCall 0 .takeSlot]

private def answeredLookup : List LookupEvent :=
  slottedLookup ++ [.inCall 0 .advance, .inCall 0 .send, .inCall 0 .advance, .receive, .timer, .range ⟨.pointLookup,0⟩,
    .dispatch, .inWorker 0 .take, .inWorker 0 .filter, .inWorker 0 .filter,
    .inWorker 0 (.answer (.values (.points [some [0x00, 0x00, 0x00, 0x05, 0x01, 0x62]])) false), .inWorker 0 .complete,
    .inCall 0 (.result fun _ => none), .inCall 0 .advance]

theorem lookups_are_served_order : ∃ s, (orderLookuper.system fun _ => orderTable.schema).Reachable s ∧
    s.Served orderLookuper (fun _ => orderTable.schema) ∧
    (s.calls.map fun call => call.results.map fun result => (result.found, result.err)) = [[(true, none)]] := by
  obtain ⟨s,hreach,hrow⟩ := System.Reachable.of_foldlM_any (T := orderLookuper.system fun _ => orderTable.schema)
    (fun s e => s.step orderLookuper (fun _ => orderTable.schema) e) answeredLookup
    (fun s => decide ((s.calls.map fun call => call.results.map fun result => (result.found, result.err)) =
      [[(true, none)]])) rfl (fun _ _ _ _ h => h) (by decide +kernel)
  exact ⟨s,hreach,lookups_are_served orderLookuper orderLookuper_created _ s hreach,of_decide_eq_true hrow⟩
/-- `Close` returns while a call has a slot and waits for the lock. -/
theorem lookups_outlive_close : orderLookuper.Created ∧
    ∃ s, (orderLookuper.system fun _ => orderTable.schema).Reachable s ∧
    s.closeReturned = true ∧ ∃ id, s.Pending id := by
  refine ⟨orderLookuper_created,?_⟩
  obtain ⟨s,hreach,hlate⟩ := System.Reachable.of_foldlM_any (T := orderLookuper.system fun _ => orderTable.schema)
    (fun s e => s.step orderLookuper (fun _ => orderTable.schema) e)
    (slottedLookup ++ [.close, .interrupt, .stop 0, .drain] ++ (List.range 8).map (fun i => .inWorker i .take) ++
      [.finish, .closeReturns])
    (fun s => s.closeReturned && s.tasks[0]?.any (·.result.isNone)) rfl (fun _ _ _ _ h => h) (by decide +kernel)
  rw [Bool.and_eq_true] at hlate
  obtain ⟨task,hid,hnone⟩ := System.exists_of_any hlate.2
  exact ⟨s,hreach,hlate.1,0,task,hid,Option.isNone_iff_eq_none.mp hnone⟩
/-- The value that the server keeps for a row: the ID of the writer's schema as an int16, then the row. -/
def keptValue (schemaID : Int) (value : Bytes) : Bytes := littleBytes 2 (schemaID % 65536).toNat ++ value

private theorem decodeLookupValue_kept {resolve : Int → Except GoError Schema} {schemaID : Int} {schema : Schema}
    (hid : -32768 ≤ schemaID ∧ schemaID ≤ maxInt16) (hs : resolve schemaID = .ok schema) (table : Table)
    (value : Bytes) : decodeLookupValueWithResolver resolve table (keptValue schemaID value) =
      decodeCompactedRow schema value >>= evolveRow schema table.schema := by
  unfold maxInt16 at hid
  have hw : (readLittle 2 (keptValue schemaID value) 0 : Go Nat) = .ok (schemaID % 65536).toNat :=
    readLittle_of_holdsAt (holdsAt_append_middle [] _ value) (by omega)
  have hr : (readInt16 (keptValue schemaID value) 0 : Go Int) = .ok schemaID := by
    rw [readInt16,hw,bind_ok,BitVec.toInt_ofNat',Int.toNat_of_nonneg (by omega)]
    exact congrArg Outcome.ok ((Int.emod_bmod ..).trans (Int.bmod_eq_of_le (by norm_num; omega) (by norm_num; omega)))
  have hl : ¬(keptValue schemaID value).length < 2 := by
    rw [keptValue,length_append,littleBytes_length]
    omega
  have hd : (keptValue schemaID value).drop 2 = value := by simp [keptValue]
  rw [decodeLookupValueWithResolver,if_neg hl,hr,bind_ok]
  simp only [hs,hd]
/-- A row with an encoded key has a value that is not null, or no columns at all. -/
private theorem not_all_nulls {schema : Schema} {names : List String} {row : Row} {key : Bytes}
    (h : encodePrimaryKey schema (schema.primaryKey.map (valueOf (names.zip row))) = .ok key) :
    rowNullBytes schema ≤ maxRowBytes ∨ ∃ v ∈ row, v ≠ .nil := by
  obtain ⟨hv,h⟩ := of_seq h
  cases hp : schema.primaryKey with
  | nil =>
    rw [Schema.validatePrimaryKey,hp] at hv
    have hnone : schema.columns.length = 0 := by simpa [Schema.selectedColumns] using (validateValues_of_validateRow hv).1
    exact .inl (by simp [rowNullBytes,hnone])
  | cons name rest =>
    rw [hp] at h
    obtain ⟨encoded,h,-⟩ := of_bind (of_seq h).2
    rw [map_cons,encodeKeyValues] at h
    obtain ⟨hnil,h⟩ := of_guard h
    cases hl : (names.zip row).reverse.lookup name with
    | none => simp [valueOf,hl,Value.isNil] at hnil
    | some v =>
      rw [valueOf,hl,Option.getD_some,Value.isNil_iff] at hnil
      obtain ⟨before,after,heq,-⟩ := lookup_eq_some_iff.mp hl
      have hmem : (name, v) ∈ (names.zip row).reverse := by simp [heq]
      exact .inr ⟨v,(of_mem_zip (mem_reverse.mp hmem)).2,hnil⟩
/-- Lookups decode what upserts have stored, under the schema that the reader has by then. -/
theorem lookup_reads_upsert (w : UpsertWriter) (c : Lookuper) (resolve : Int → Except GoError Schema) (schemaID : Int)
    (hid : -32768 ≤ schemaID ∧ schemaID ≤ maxInt16) (hs : resolve schemaID = .ok w.table.schema) (row : Row)
    (hfit : fitsRow w.table.schema row = true) (future : Nat) (x : UpsertItem w) (h : w.upsertItem row future = .ok x) :
    ∃ value, x.record.value = some value ∧ decodeLookupValueWithResolver resolve c.table (keptValue schemaID value) =
      evolveRow w.table.schema c.table.schema (storedRow .compacted w.table.schema row) := by
  unfold UpsertWriter.upsertItem at h
  have h := (of_guard h).2
  obtain ⟨value,he,h⟩ := of_bind (of_seq h).2
  obtain ⟨hkey,-,hvalue,-⟩ := UpsertWriter.mutationItem_eq_ok h
  refine ⟨value,hvalue,?_⟩
  have hd : decodeCompactedRow w.table.schema value = .ok (storedRow .compacted w.table.schema row) :=
    decodeRow_encodeRow (fun _ _ => roundTrips _ _) he hfit ((encodeRow_length_le he).mpr (not_all_nulls hkey))
  rw [decodeLookupValue_kept hid hs,hd,bind_ok]

theorem lookup_reads_order : ∃ value, (orderItem []).record.value = some value ∧
    decodeLookupValueWithResolver (fun _ => .ok orderTable.schema) orderTable (keptValue 0 value) =
      evolveRow orderTable.schema orderTable.schema (storedRow .compacted orderTable.schema [.int32 5, .string [0x62]]) :=
  lookup_reads_upsert orderWriter orderLookuper (fun _ => .ok orderTable.schema) 0 (by decide) rfl
    [.int32 5, .string [0x62]] (by decide) 0 (orderItem []) rfl
end FlussGo
