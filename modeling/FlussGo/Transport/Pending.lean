import FlussGo.Transport.Connection
import Mathlib.Data.List.Perm.Subperm
/-!
# The table of pending requests

Every entry belongs to a call that holds a slot, and IDs are chosen outside the table, whatever the order in
which entries are removed.
-/
namespace FlussGo
open List Prod
namespace Transport
variable {c : Connection} {s s' : State} {n : Nat}
/-- The ID with which a call is registered, until it has called `unregister`. -/
def Phase.id : Phase → Option Int
  | .registered id => some id
  | .locked id => some id
  | .writing id _ _ => some id
  | .finishing id _ _ => some id
  | .discarding id _ => some id
  | .failing id _ _ => some id
  | .awaiting id => some id
  | .leaving id _ => some id
  | _ => none

def Phase.hasSlot : Phase → Bool
  | .absent => false
  | .waiting => false
  | .returned _ => false
  | _ => true

theorem advanceID_range {id : Int} (h : 0 ≤ id ∧ id ≤ 2147483647) : 1 ≤ advanceID id ∧ advanceID id ≤ 2147483647 := by
  unfold advanceID
  split <;> omega

theorem freeID_some {taken : List Int} {attempts : Nat} {id free : Int} (hid : 0 ≤ id ∧ id ≤ 2147483647)
    (h : freeID taken attempts id = some free) : free ∉ taken ∧ 1 ≤ free ∧ free ≤ 2147483647 := by
  induction attempts generalizing id with
  | zero => simp [freeID] at h
  | succ attempts ih =>
    have hr := advanceID_range hid
    rw [freeID] at h
    split at h
    · exact ih ⟨by omega,hr.2⟩ h
    next hf =>
      cases h
      exact ⟨by simpa using hf,hr⟩

private theorem freeID_none_above {taken : List Int} {attempts k : Nat} {id : Int} (hid : 0 ≤ id)
    (h : freeID taken attempts id = none) (hk : 1 ≤ k) (hat : k ≤ attempts) (hmax : id + k ≤ 2147483647) :
    id + k ∈ taken := by
  induction attempts generalizing id k with
  | zero => omega
  | succ attempts ih =>
    have ha : advanceID id = id + 1 := by
      unfold advanceID
      rw [if_neg (by omega)]
    rw [freeID,ha] at h
    split at h
    next ht =>
      by_cases hone : k = 1
      · subst hone
        simpa using ht
      · have := ih (k := k - 1) (by omega) h (by omega) (by omega) (by omega)
        rw [show id + 1 + ((k - 1 : Nat) : Int) = id + k by omega] at this
        exact this
    · simp at h

private theorem freeID_none_wrap {taken : List Int} {attempts k : Nat} {id : Int} (hid : 0 ≤ id)
    (h : freeID taken attempts id = none) (hk : id + k = 2147483647) (hat : k < attempts) :
    1 ∈ taken ∧ freeID taken (attempts - k - 1) 1 = none := by
  induction k generalizing attempts id with
  | zero =>
    obtain ⟨attempts,rfl⟩ : ∃ m, attempts = m + 1 := ⟨attempts - 1,by omega⟩
    have ha : advanceID id = 1 := by
      unfold advanceID
      rw [if_pos (by simpa using hk)]
    rw [freeID,ha] at h
    split at h
    next ht => exact ⟨by simpa using ht,by simpa using h⟩
    · simp at h
  | succ k ih =>
    obtain ⟨attempts,rfl⟩ : ∃ m, attempts = m + 1 := ⟨attempts - 1,by omega⟩
    have ha : advanceID id = id + 1 := by
      unfold advanceID
      rw [if_neg (by omega)]
    rw [freeID,ha] at h
    split at h
    · have := ih (by omega) h (by omega) (by omega)
      rw [show attempts + 1 - (k + 1) - 1 = attempts - k - 1 by omega]
      exact this
    · simp at h

theorem freeID_none {taken : List Int} {id : Int} (hid : 0 ≤ id ∧ id ≤ 2147483647)
    (h : freeID taken idAttempts id = none) (t : Int) (ht : 1 ≤ t ∧ t ≤ 2147483647) : t ∈ taken := by
  by_cases hlt : id < t
  · have := freeID_none_above (k := (t - id).toNat) hid.1 h (by omega) (by unfold idAttempts; omega) (by omega)
    rw [show id + ((t - id).toNat : Int) = t by omega] at this
    exact this
  · obtain ⟨hone,hr⟩ := freeID_none_wrap (k := (2147483647 - id).toNat) hid.1 h (by omega)
      (by unfold idAttempts; omega)
    by_cases ht1 : t = 1
    · rw [ht1]
      exact hone
    · have := freeID_none_above (k := (t - 1).toNat) (by omega) hr (by omega) (by unfold idAttempts; omega) (by omega)
      rw [show (1 : Int) + ((t - 1).toNat : Int) = t by omega] at this
      exact this

theorem spentID_range {id : Int} (h : 0 ≤ id ∧ id ≤ 2147483647) : 0 ≤ spentID id ∧ spentID id ≤ 2147483647 := by
  unfold spentID
  induction idAttempts with
  | zero => exact h
  | succ attempts ih =>
    rw [Function.iterate_succ_apply']
    have := advanceID_range ih
    omega

structure TableInv (c : Connection) (s : State) : Prop where
  slots_nodup : s.slots.Nodup
  slots_mem : ∀ n, n ∈ s.slots ↔ (s.calls n).hasSlot = true
  slots_le : (s.slots.length : Int) ≤ c.maxInFlight
  nextID : 0 ≤ s.nextID ∧ s.nextID ≤ 2147483647
  ids_nodup : (s.pending.map fst).Nodup
  calls_nodup : (s.pending.map snd).Nodup
  ids_range : ∀ id n, (id, n) ∈ s.pending → 1 ≤ id ∧ id ≤ 2147483647
  registered : ∀ id n, (id, n) ∈ s.pending → (s.calls n).id = some id
  closed : s.closeErr ≠ none → s.pending = []

theorem tableInv_initial : TableInv c {} := by
  have := c.maxInFlight_pos
  constructor <;> simp [Phase.hasSlot]
  omega
/-- A step that moves calls without changing their ID and slot, and at most removes entries. -/
structure Removes (s s' : State) : Prop where
  calls : ∀ m, (s'.calls m).id = (s.calls m).id ∧ (s'.calls m).hasSlot = (s.calls m).hasSlot
  slots : s'.slots = s.slots
  nextID : 0 ≤ s'.nextID ∧ s'.nextID ≤ 2147483647
  pending : s'.pending.Sublist s.pending
  closed : s'.closeErr ≠ none → s'.pending = []

theorem Removes.tableInv (h : Removes s s') (hinv : TableInv c s) : TableInv c s' where
  slots_nodup := h.slots ▸ hinv.slots_nodup
  slots_mem n := by rw [h.slots,(h.calls n).2,hinv.slots_mem n]
  slots_le := h.slots ▸ hinv.slots_le
  nextID := h.nextID
  ids_nodup := hinv.ids_nodup.sublist (h.pending.map _)
  calls_nodup := hinv.calls_nodup.sublist (h.pending.map _)
  ids_range id n hmem := hinv.ids_range id n (h.pending.subset hmem)
  registered id n hmem := by
    rw [(h.calls n).1]
    exact hinv.registered id n (h.pending.subset hmem)
  closed := h.closed

theorem goto_calls_keeps {p : Phase} (hid : p.id = (s.calls n).id) (hs : p.hasSlot = (s.calls n).hasSlot) (m : Nat) :
    ((s.goto n p).calls m).id = (s.calls m).id ∧ ((s.goto n p).calls m).hasSlot = (s.calls m).hasSlot := by
  by_cases hm : m = n
  · subst hm
    simp [State.goto,hid,hs]
  · simp [State.goto,hm]

theorem Move.keeps {p p' : Phase} (h : Move s n p p') : p'.id = p.id ∧ p'.hasSlot = p.hasSlot := by
  cases h <;> exact ⟨rfl,rfl⟩

theorem validate_keeps (maxFrame : Int) (r : Request) (ctx : Option ContextError) :
    (validate maxFrame r ctx).id = none ∧ (validate maxFrame r ctx).hasSlot = false := by
  unfold validate
  split
  · exact ⟨rfl,rfl⟩
  split
  · exact ⟨rfl,rfl⟩
  split
  · exact ⟨rfl,rfl⟩
  split <;> exact ⟨rfl,rfl⟩

theorem writeResult_keeps (id : Int) (total : Nat) (err finishErr : Option Error) :
    (writeResult id total err finishErr).id = some id ∧ (writeResult id total err finishErr).hasSlot = true := by
  unfold writeResult
  split
  · exact ⟨rfl,rfl⟩
  · exact ⟨rfl,rfl⟩
  · exact ⟨rfl,rfl⟩
  · split <;> exact ⟨rfl,rfl⟩

theorem fail_cases (s : State) (stage : FailStage) :
    ((s.fail stage).1.pending = s.pending ∧ (s.fail stage).1.closeErr = s.closeErr) ∨
      (s.closeErr = none ∧ (s.fail stage).1.pending = []) := by
  cases stage with
  | start err =>
    cases hc : s.closeErr with
    | none | some => simp [State.fail,hc]
  | close | ended => exact .inl ⟨rfl,rfl⟩
  | complete err taken => cases taken <;> exact .inl ⟨rfl,rfl⟩
/-- The four steps that move the table or the slots otherwise. -/
inductive TableStep (c : Connection) : State → State → Prop
  | takeSlot {s : State} {n : Nat} (hphase : s.calls n = .waiting) (hroom : (s.slots.length : Int) < c.maxInFlight) :
      TableStep c s { s.goto n .slotted with slots := s.slots ++ [n] }
  | register {s : State} {n : Nat} {id : Int} (hphase : s.calls n = .checked) (hopen : s.closeErr = none)
      (hfree : freeID (s.pending.map fst) idAttempts s.nextID = some id) :
      TableStep c s { s.goto n (.registered id) with
        nextID := id, pending := (id, n) :: s.pending, ids := Function.update s.ids n (some id) }
  | unregister {s : State} {n : Nat} {id : Int} {result : Result} (hphase : s.calls n = .leaving id result) :
      TableStep c s { s.goto n (.releasing result) with pending := s.pending.filter (·.1 ≠ id) }
  | release {s : State} {n : Nat} {result : Result} (hphase : s.calls n = .releasing result) :
      TableStep c s { s.goto n (.returned result) with slots := s.slots.erase n }

theorem step_removes_or_table {label : Label} (h : Step c s label s') (hinv : TableInv c s) :
    Removes s s' ∨ TableStep c s s' := by
  have moves : ∀ {t : State} {n : Nat} {p : Phase}, p.id = (s.calls n).id → p.hasSlot = (s.calls n).hasSlot →
      t.calls = (s.goto n p).calls → t.slots = s.slots → t.nextID = s.nextID → t.pending = s.pending →
      t.closeErr = s.closeErr → Removes s t := by
    intro t n p hid hsl hca hs hn hpe hcl
    refine ⟨fun m => hca ▸ goto_calls_keeps hid hsl m,hs,hn ▸ hinv.nextID,hpe ▸ List.Sublist.refl _,?_⟩
    rw [hpe,hcl]
    exact hinv.closed
  have stays : ∀ {t : State}, t.calls = s.calls → t.slots = s.slots → t.nextID = s.nextID →
      t.pending.Sublist s.pending → t.closeErr = s.closeErr → Removes s t := by
    intro t hca hs hn hpe hcl
    refine ⟨fun m => by rw [hca]; exact ⟨rfl,rfl⟩,hs,hn ▸ hinv.nextID,hpe,?_⟩
    rw [hcl]
    intro hne
    rw [hinv.closed hne] at hpe
    exact sublist_nil.mp hpe
  have fails : ∀ {t : State} (stage : FailStage), (∀ m, (t.calls m).id = (s.calls m).id ∧
      (t.calls m).hasSlot = (s.calls m).hasSlot) → t.slots = (s.fail stage).1.slots →
      t.nextID = (s.fail stage).1.nextID → t.pending = (s.fail stage).1.pending →
      t.closeErr = (s.fail stage).1.closeErr → Removes s t := by
    intro t stage hca hs hn hpe hcl
    have hcas := fail_cases s stage
    have hfr := fail_frame s stage
    refine ⟨hca,hs.trans hfr.slots,(hn.trans hfr.nextID) ▸ hinv.nextID,?_,?_⟩
    · rcases hcas with ⟨hp,_⟩ | ⟨_,hp⟩
      · exact hpe.trans hp ▸ List.Sublist.refl _
      · exact hpe.trans hp ▸ nil_sublist _
    · rw [hpe,hcl]
      rcases hcas with ⟨hp,hc⟩ | ⟨_,hp⟩
      · rw [hp,hc]
        exact hinv.closed
      · exact fun _ => hp
  cases h with
  | call hph =>
    refine .inl (moves ?_ ?_ rfl rfl rfl rfl rfl)
    · rw [(validate_keeps ..).1,hph]
      rfl
    · rw [(validate_keeps ..).2,hph]
      rfl
  | cancel cause hctx => exact .inl (stays rfl rfl rfl (.refl _) rfl)
  | takeSlot hph hro => exact .inr (.takeSlot hph hro)
  | move hm => exact .inl (moves hm.keeps.1 hm.keeps.2 rfl rfl rfl rfl rfl)
  | register hph ho hf => exact .inr (.register hph ho hf)
  | exhausted hph ho hf =>
    refine .inl ⟨goto_calls_keeps (by rw [hph]; rfl) (by rw [hph]; rfl),rfl,?_,.refl _,hinv.closed⟩
    exact spentID_range hinv.nextID
  | lock hph | cancelWrite hph | prepare hph | receive hph | prepareFailed _ hph =>
    exact .inl (moves (by rw [hph]; rfl) (by rw [hph]; rfl) rfl rfl rfl rfl rfl)
  | write hph hw ho herr =>
    refine .inl (moves ?_ ?_ rfl rfl rfl rfl rfl)
    all_goals
      rw [hph]
      split <;> rfl
  | finish hph hfi =>
    refine .inl (moves ?_ ?_ rfl rfl rfl rfl rfl)
    · rw [hph,(writeResult_keeps ..).1]
      rfl
    · rw [hph,(writeResult_keeps ..).2]
      rfl
  | @failCall n id err stage hph hst =>
    refine .inl (fails stage (fun m => ?_) rfl rfl rfl rfl)
    have hca : ((s.fail stage).1.goto n (.failing id err (s.fail stage).2)).calls =
        (s.goto n (.failing id err (s.fail stage).2)).calls := by
      simp only [State.goto,(fail_frame s stage).calls]
    rw [hca]
    exact goto_calls_keeps (by rw [hph]; rfl) (by rw [hph]; rfl) m
  | unregister hph => exact .inr (.unregister hph)
  | release hph => exact .inr (.release hph)
  | deliver hr hpe => exact .inl (stays rfl rfl rfl filter_sublist rfl)
  | failReader | failCloser =>
    exact .inl (fails _ (fun m => by simp only [(fail_frame s _).calls,and_self]) rfl rfl rfl rfl)
  | _ => exact .inl (stays rfl rfl rfl (.refl _) rfl)

private theorem hasSlot_goto {p : Phase} {slots : List Nat} (hinv : ∀ m, m ∈ s.slots ↔ (s.calls m).hasSlot = true)
    (hs : n ∈ slots ↔ p.hasSlot = true) (ho : ∀ m, m ≠ n → (m ∈ slots ↔ m ∈ s.slots)) (m : Nat) :
    m ∈ slots ↔ ((s.goto n p).calls m).hasSlot = true := by
  by_cases hm : m = n
  · subst hm
    rw [hs]
    simp [State.goto]
  · rw [ho m hm,hinv m]
    simp [State.goto,hm]

private theorem registered_goto {p : Phase} {id : Int} {m : Nat} (h : (s.calls m).id = some id)
    (hn : m = n → p.id = some id) : ((s.goto n p).calls m).id = some id := by
  by_cases hm : m = n
  · subst hm
    simpa [State.goto] using hn rfl
  · simpa [State.goto,hm] using h

theorem TableStep.tableInv (h : TableStep c s s') (hinv : TableInv c s) : TableInv c s' := by
  cases h with
  | @takeSlot n hp hro =>
    have hout : n ∉ s.slots := by
      rw [hinv.slots_mem n,hp]
      simp [Phase.hasSlot]
    refine { hinv with slots_nodup := ?_, slots_mem := hasSlot_goto hinv.slots_mem ?_ ?_, slots_le := ?_, registered := ?_ }
    · refine nodup_append.mpr ⟨hinv.slots_nodup,by simp,?_⟩
      intro a ha b hb heq
      rw [mem_singleton] at hb
      exact hout (hb ▸ heq ▸ ha)
    · simp [Phase.hasSlot]
    · intro m hm
      simp [hm]
    · show ((s.slots ++ [n]).length : Int) ≤ _
      rw [length_append,length_singleton]
      omega
    · intro id m hmem
      refine registered_goto (hinv.registered id m hmem) ?_
      rintro rfl
      have := hinv.registered id m hmem
      rw [hp] at this
      cases this
  | @register n id hp hop hfr =>
    obtain ⟨hf,hr⟩ := freeID_some hinv.nextID hfr
    have ho : ∀ id' m, (id', m) ∈ s.pending → m ≠ n := by
      rintro id' m hmem rfl
      have := hinv.registered id' m hmem
      rw [hp] at this
      cases this
    constructor
    case slots_nodup => exact hinv.slots_nodup
    case slots_le => exact hinv.slots_le
    case slots_mem =>
      refine hasSlot_goto hinv.slots_mem ?_ fun m _ => Iff.rfl
      show n ∈ s.slots ↔ _
      rw [hinv.slots_mem n,hp]
      rfl
    case nextID => exact ⟨by show 0 ≤ id; omega,hr.2⟩
    case ids_nodup => exact nodup_cons.mpr ⟨hf,hinv.ids_nodup⟩
    case calls_nodup =>
      refine nodup_cons.mpr ⟨fun hmem => ?_,hinv.calls_nodup⟩
      obtain ⟨⟨id',m⟩,he,rfl⟩ := mem_map.mp hmem
      exact ho id' m he rfl
    case ids_range =>
      intro id' m hmem
      rcases mem_cons.mp hmem with heq | hmem
      · cases heq
        exact hr
      · exact hinv.ids_range id' m hmem
    case registered =>
      intro id' m hmem
      rcases mem_cons.mp hmem with heq | hmem
      · cases heq
        simp [State.goto,Phase.id]
      · exact registered_goto (hinv.registered id' m hmem) fun heq => absurd heq (ho id' m hmem)
    case closed => exact fun hne => absurd hop hne
  | @unregister n id result hp =>
    have hsub : (s.pending.filter (·.1 ≠ id)).Sublist s.pending := filter_sublist
    refine {
      slots_nodup := hinv.slots_nodup, slots_mem := hasSlot_goto hinv.slots_mem ?_ fun m _ => Iff.rfl
      slots_le := hinv.slots_le, nextID := hinv.nextID
      ids_nodup := hinv.ids_nodup.sublist (hsub.map _), calls_nodup := hinv.calls_nodup.sublist (hsub.map _)
      ids_range := fun id' m hmem => hinv.ids_range id' m (hsub.subset hmem), registered := ?_, closed := ?_ }
    · show n ∈ s.slots ↔ _
      rw [hinv.slots_mem n,hp]
      rfl
    · intro id' m hmem
      obtain ⟨he,hne⟩ := mem_filter.mp hmem
      have hid := hinv.registered id' m he
      refine registered_goto hid ?_
      rintro rfl
      rw [hp] at hid
      simp [Option.some.inj hid] at hne
    · intro hne
      show s.pending.filter _ = []
      rw [hinv.closed hne]
      rfl
  | @release n result hp =>
    refine { hinv with
      slots_nodup := hinv.slots_nodup.erase n, slots_mem := hasSlot_goto hinv.slots_mem ?_ ?_, slots_le := ?_
      registered := ?_ }
    · simp [Phase.hasSlot,hinv.slots_nodup.mem_erase_iff]
    · intro m hm
      rw [hinv.slots_nodup.mem_erase_iff]
      exact ⟨fun h => h.2,fun h => ⟨hm,h⟩⟩
    · have := length_erase_le (a := n) (l := s.slots)
      have := hinv.slots_le
      show ((s.slots.erase n).length : Int) ≤ _
      omega
    · intro id m hmem
      refine registered_goto (hinv.registered id m hmem) ?_
      rintro rfl
      have := hinv.registered id m hmem
      rw [hp] at this
      cases this

theorem reachable_table (h : c.system.Reachable s) : TableInv c s := by
  refine System.Reachable.invariant (P := TableInv c) ?_ ?_ h
  · rintro s rfl
    exact tableInv_initial
  · intro s label s' _ hinv hs
    rcases step_removes_or_table hs hinv with hr | ht
    · exact hr.tableInv hinv
    · exact ht.tableInv hinv

theorem TableInv.pending_slots (h : TableInv c s) : s.pending.map snd ⊆ s.slots := by
  intro n hn
  obtain ⟨⟨id,m⟩,hmem,rfl⟩ := mem_map.mp hn
  rw [h.slots_mem m]
  have := h.registered id m hmem
  revert this
  cases s.calls m <;> simp [Phase.id,Phase.hasSlot]

theorem TableInv.pending_le (h : TableInv c s) : (s.pending.length : Int) ≤ c.maxInFlight := by
  have := (subperm_of_subset h.calls_nodup h.pending_slots).length_le
  rw [length_map] at this
  have := h.slots_le
  omega
end Transport
end FlussGo
