import FlussGo.Client.Connections
/-!
# Ownership of connections

A connection that was opened is shut down, or somebody is responsible for it: the cache, the work that
has not published it yet, or the request that is about to shut it down.
-/
namespace FlussGo
open List Option Connections Function
/-- Who is responsible for a connection that is not in the cache. -/
def Connections.Held (s : Connections) (i : Nat) : Prop :=
  (∃ key, (key, OpenPhase.opened (.ok i)) ∈ s.opens) ∨ (∃ key err, (key, OpenPhase.refused i err) ∈ s.opens) ∨
    GetPhase.dropping i ∈ s.gets
/-- The clients that `Close` has still to shut down. -/
def ClosePhase.remaining : ClosePhase → Option (List Nat)
  | .notCalled => none
  | .collected clients => some clients
  | .shutting clients => some clients
  | .returned => some []

structure OwnInv (s : Connections) : Prop where
  kept : ∀ i conn, s.conns[i]? = some conn → conn.shut = true ∨ s.clients conn.key = some i ∨ s.Held i
  opened : ∀ key i, (key, OpenPhase.opened (.ok i)) ∈ s.opens → ∃ conn, s.conns[i]? = some conn ∧ conn.key = key
  cached : ∀ key i, s.clients key = some i → i < s.conns.length
  closed : s.closed = s.closing.remaining.isSome
  closing : ∀ clients, s.closing.remaining = some clients → ∀ i conn, s.conns[i]? = some conn →
    s.clients conn.key = some i → conn.shut = true ∨ i ∈ clients
/-- A publication that finds no other client of its key in the cache. -/
def Connections.replaces (s : Connections) : ConnectionsEvent → Bool
  | .publish id => s.opens[id]?.any fun work =>
      match work.2 with
      | .opened (.ok _) => !s.closed && (s.clients work.1).isSome
      | _ => false
  | _ => false

def PublishesOnce (s : Connections) (e : ConnectionsEvent) : Prop := s.replaces e = false

section Frame
variable {s s' : Connections} {n i id work : Nat} {key key' : ConnectionKey} {phase : OpenPhase}

theorem OwnInv.frame (h : OwnInv s) (hl : s'.conns.length = s.conns.length)
    (hco : ∀ (i : Nat) (conn' : ManagedConn), s'.conns[i]? = some conn' →
      ∃ conn, s.conns[i]? = some conn ∧ conn'.key = conn.key ∧ (conn.shut = true → conn'.shut = true))
    (hcl : ∀ key i, s'.clients key = some i → s.clients key = some i)
    (hh : ∀ (i : Nat) (conn' : ManagedConn), s'.conns[i]? = some conn' → conn'.shut = false →
      s.clients conn'.key = some i ∨ s.Held i → s'.clients conn'.key = some i ∨ s'.Held i)
    (hop : ∀ key i, (key, OpenPhase.opened (.ok i)) ∈ s'.opens → (key, OpenPhase.opened (.ok i)) ∈ s.opens)
    (hclos : s'.closed = s.closed) (hso : s'.closing.remaining.isSome = s.closing.remaining.isSome)
    (hclo : ∀ clients clients', s.closing.remaining = some clients → s'.closing.remaining = some clients' →
      ∀ (i : Nat) (conn' : ManagedConn), s'.conns[i]? = some conn' → conn'.shut = false → i ∈ clients → i ∈ clients') :
    OwnInv s' where
  kept i conn' hc' := by
    obtain ⟨conn,hc,hkey,hs⟩ := hco i conn' hc'
    cases ho : conn'.shut with
    | true => exact .inl rfl
    | false =>
      right
      apply hh i conn' hc' ho
      rw [hkey]
      rcases h.kept i conn hc with hd | hk
      · rw [hs hd] at ho
        simp at ho
      · exact hk
  opened key i hmem := by
    obtain ⟨conn,hc,hkey⟩ := h.opened key i (hop key i hmem)
    have hlt : i < s'.conns.length := hl ▸ (lt_of_getElem? hc)
    obtain ⟨conn₀,hcon,hke,-⟩ := hco i s'.conns[i] (getElem?_eq_getElem hlt)
    cases hc.symm.trans hcon
    exact ⟨_,getElem?_eq_getElem hlt,hke.trans hkey⟩
  cached key i hcached := hl ▸ h.cached key i (hcl key i hcached)
  closed := by rw [hclos,hso,h.closed]
  closing clients' hr i conn' hc' hcached := by
    obtain ⟨conn,hc,hkey,hs⟩ := hco i conn' hc'
    obtain ⟨clients,hb⟩ := isSome_iff_exists.mp (hso ▸ isSome_iff_exists.mpr ⟨_,hr⟩)
    cases ho : conn'.shut with
    | true => exact .inl rfl
    | false =>
      right
      rcases h.closing clients hb i conn hc (hkey ▸ hcl _ _ hcached) with hd | hmem
      · rw [hs hd] at ho
        simp at ho
      · exact hclo clients clients' hb hr i conn' hc' ho hmem

theorem mem_set_of_ne {α : Type} {l : List α} {x y z : α} (hx : x ∈ l) (hy : l[i]? = some y) (hne : x ≠ y) :
    x ∈ l.set i z := by
  obtain ⟨j,hj,rfl⟩ := getElem_of_mem hx
  have hij : i ≠ j := by
    rintro rfl
    rw [getElem?_eq_getElem hj] at hy
    exact hne (some.inj hy)
  have hj' : j < (l.set i z).length := by simpa using hj
  rw [← getElem_set_ne hij hj']
  exact getElem_mem hj'

theorem OwnInv.frame_same (h : OwnInv s) (hco : s'.conns = s.conns) (hc : s'.clients = s.clients)
    (hh : ∀ i, s.Held i → s'.Held i)
    (ho : ∀ key i, (key, OpenPhase.opened (.ok i)) ∈ s'.opens → (key, OpenPhase.opened (.ok i)) ∈ s.opens)
    (hclo : s'.closed = s.closed) (hcl : s'.closing.remaining = s.closing.remaining) : OwnInv s' := by
  apply h.frame (by rw [hco]) ?_ (by simp [hc]) ?_ ho hclo (by rw [hcl])
  · intro clients clients' hb ha i conn' _ _ hmem
    rw [hcl,hb] at ha
    cases ha
    exact hmem
  · intro i conn' hc'
    exact ⟨conn',hco ▸ hc',rfl,id⟩
  · intro i conn' _ _ hk
    rw [hc]
    exact hk.imp id (hh i)

private theorem held_setGet {phase old : GetPhase} (hold : s.gets[n]? = some old)
    (hne : old ≠ .dropping i) (h : s.Held i) : (s.setGet n phase).Held i := by
  rcases h with h | h | h
  · exact .inl h
  · exact .inr (.inl h)
  · exact .inr (.inr (mem_set_of_ne h hold (Ne.symm hne)))

private theorem held_setOpen {old : OpenPhase} (hold : s.opens[id]? = some (key', old)) (ho : old ≠ .opened (.ok i))
    (hr : ∀ err, old ≠ .refused i err) (h : s.Held i) : (s.setOpen id key phase).Held i := by
  rcases h with ⟨k,h⟩ | ⟨k,err,h⟩ | h
  · exact .inl ⟨k,mem_set_of_ne h hold fun heq => ho (Prod.mk.inj heq).2.symm⟩
  · exact .inr (.inl ⟨k,err,mem_set_of_ne h hold fun heq => hr err (Prod.mk.inj heq).2.symm⟩)
  · exact .inr (.inr h)

private theorem opened_of_setOpen (hp : phase ≠ .opened (.ok i))
    (h : (key', OpenPhase.opened (.ok i)) ∈ (s.setOpen id key phase).opens) :
    (key', OpenPhase.opened (.ok i)) ∈ s.opens := by
  rcases mem_or_eq_of_mem_set h with h | h
  · exact h
  · exact absurd (Prod.mk.inj h).2.symm hp

private theorem shutConn_conns {client : Nat} {conn' : ManagedConn} (h : (s.shutConn client).conns[i]? = some conn') :
    ∃ conn, s.conns[i]? = some conn ∧ conn'.key = conn.key ∧ (conn.shut = true → conn'.shut = true) ∧
      (conn'.shut = false → i ≠ client) := by
  simp only [shutConn,getElem?_modify] at h
  obtain ⟨conn,hc,rfl⟩ := map_eq_some_iff.mp h
  by_cases hi : client = i
  · exact ⟨conn,hc,by simp [hi],by simp [hi],by simp [hi]⟩
  · exact ⟨conn,hc,by simp [hi],by simp [hi],fun _ => Ne.symm hi⟩

private theorem shutConn_length (s : Connections) (client : Nat) :
    (s.shutConn client).conns.length = s.conns.length := by
  simp [shutConn]

private theorem remaining_same (h : s'.closing = s.closing) (clients clients' : List Nat)
    (hb : s.closing.remaining = some clients) (ha : s'.closing.remaining = some clients') (i : Nat)
    (conn' : ManagedConn) (_ : s'.conns[i]? = some conn') (_ : conn'.shut = false) (hmem : i ∈ clients) : i ∈ clients' := by
  rw [h,hb] at ha
  cases ha
  exact hmem

variable (h : OwnInv s)
include h

private theorem get_own (node : ServerNode) : OwnInv (s.get node) := by
  refine h.frame_same rfl rfl ?_ (fun _ _ => id) rfl rfl
  rintro i (hh | hh | hh)
  · exact .inl hh
  · exact .inr (.inl hh)
  · exact .inr (.inr (mem_append_left _ hh))

private theorem join_own (hs : s.join n = some s') : OwnInv s' := by
  unfold Connections.join at hs
  split at hs
  next key hget =>
    simp only [some.injEq] at hs
    subst hs
    refine h.frame_same rfl rfl ?_ ?_ rfl rfl
    · have ho : ∀ x ∈ s.opens, x ∈ (if (s.flights.enter key false).shared.length = s.flights.shared.length then
          s.opens else s.opens ++ [(key, .starting)]) := by
        intro x hx
        split
        · exact hx
        · exact mem_append_left _ hx
      rintro i (⟨k,hh⟩ | ⟨k,err,hh⟩ | hh)
      · exact .inl ⟨k,ho _ hh⟩
      · exact .inr (.inl ⟨k,err,ho _ hh⟩)
      · exact .inr (.inr (mem_set_of_ne hh hget (by simp)))
    · intro k i hmem
      split at hmem
      · exact hmem
      · simpa using hmem
  · simp at hs

private theorem setGet_own {phase old : GetPhase} (hold : s.gets[n]? = some old)
    (hne : ∀ i, old ≠ .dropping i) : OwnInv (s.setGet n phase) :=
  h.frame_same rfl rfl (fun i => held_setGet hold (hne i)) (fun _ _ => id) rfl rfl

private theorem receive_own (hs : s.receive n = some s') : OwnInv s' := by
  unfold receive at hs
  split at hs
  next hget =>
    split at hs
    · cases hs
      exact setGet_own h hget (by simp)
    · cases hs
      exact setGet_own h hget (by simp)
    · simp at hs
  · simp at hs

private theorem send_own {api : APIKey} (hs : s.send n api = some s') : OwnInv s' := by
  unfold send at hs
  split at hs
  · cases hs
    refine h.frame (by simp) ?_ (fun _ _ => id) (fun _ _ _ _ => id) (fun _ _ => id) rfl rfl (remaining_same rfl)
    · intro i conn' hc'
      rw [getElem?_modify] at hc'
      obtain ⟨conn,hc,rfl⟩ := map_eq_some_iff.mp hc'
      refine ⟨conn,hc,?_⟩
      split
      · split
        · exact ⟨rfl,id⟩
        · exact ⟨rfl,id⟩
      · exact ⟨rfl,id⟩
  · simp at hs

private theorem remove_own (hs : s.remove n = some s') : OwnInv s' := by
  unfold remove at hs
  split at hs
  next key client hget =>
    simp only [some.injEq] at hs
    subst hs
    have hlt : n < s.gets.length := lt_of_getElem? hget
    have hd : GetPhase.dropping client ∈ s.gets.set n (.dropping client) := mem_set hlt _
    refine h.frame rfl (fun i conn hco => ⟨conn,hco,rfl,id⟩) ?_ ?_ (fun _ _ => id) rfl rfl (remaining_same rfl)
    · intro k i hc
      dsimp only at hc
      split at hc
      · by_cases hk : k = key
        · subst hk
          simp at hc
        · rwa [update_of_ne hk] at hc
      · exact hc
    · rintro i conn' - - (hc | hh | hh | hh)
      · by_cases hi : i = client
        · subst hi
          exact .inr (.inr (.inr hd))
        left
        dsimp only
        split
        next hcu =>
          by_cases hk : conn'.key = key
          · rw [hk,hcu] at hc
            exact absurd (some.inj hc).symm hi
          · rwa [update_of_ne hk]
        · exact hc
      · exact .inr (.inl hh)
      · exact .inr (.inr (.inl hh))
      · exact .inr (.inr (.inr (mem_set_of_ne hh hget (by simp))))
  · simp at hs

private theorem shutdown_own (hs : s.shutdown n = some s') : OwnInv s' := by
  unfold shutdown at hs
  split at hs
  next client hget =>
    cases hs
    refine h.frame (shutConn_length s client) ?_ (fun _ _ => id) ?_ (fun _ _ => id) rfl rfl (remaining_same rfl)
    · intro i conn' hc'
      obtain ⟨conn,hc,hkey,hsh,-⟩ := shutConn_conns hc'
      exact ⟨conn,hc,hkey,hsh⟩
    · intro i conn' hc' hop hk
      obtain ⟨-,-,-,-,ho⟩ := shutConn_conns hc'
      exact hk.imp id (held_setGet (s := s.shutConn client) hget (by simpa using Ne.symm (ho hop)))
  · simp at hs

private theorem release_own (hs : s.release n = some s') : OwnInv s' := by
  unfold release at hs
  split at hs
  next hget =>
    cases hs
    exact setGet_own h hget (by simp)
  · simp at hs

private theorem setOpen_own {old : OpenPhase}
    (hold : s.opens[id]? = some (key', old)) (ho : ∀ i, old ≠ .opened (.ok i))
    (hr : ∀ i err, old ≠ .refused i err) (hp : ∀ i, phase ≠ .opened (.ok i)) : OwnInv (s.setOpen id key phase) :=
  h.frame_same rfl rfl (fun i => held_setOpen hold (ho i) (hr i))
    (fun _ i hmem => opened_of_setOpen (hp i) hmem) rfl rfl

private theorem check_own (hs : s.check id = some s') : OwnInv s' := by
  unfold check at hs
  split at hs
  next key ho =>
    split at hs
    · cases hs
      exact setOpen_own h ho (by simp) (by simp) (by simp)
    · split at hs
      · cases hs
        exact setOpen_own h ho (by simp) (by simp) (by simp)
      · cases hs
        exact setOpen_own h ho (by simp) (by simp) (by simp)
  · simp at hs

private theorem flight_own {flights : Coalescer ConnectionKey (Option Nat)} : OwnInv { s with flights } :=
  h.frame_same rfl rfl (fun _ => id) (fun _ _ => id) rfl rfl

private theorem finish_own (hs : s.finish id = some s') : OwnInv s' := by
  unfold finish at hs
  split at hs
  next key client err ho =>
    obtain ⟨flights,-,hs⟩ := bind_eq_some_iff.mp hs
    cases hs
    exact setOpen_own (flight_own h) ho (by simp) (by simp) (by simp)
  · simp at hs

private theorem discard_own (hs : s.discard work = some s') : OwnInv s' := by
  unfold Connections.discard at hs
  split at hs
  next key client err hop =>
    cases hs
    refine h.frame (shutConn_length s client) ?_ (fun _ _ => id) ?_ ?_ rfl rfl (remaining_same rfl)
    · intro i conn' hc'
      obtain ⟨conn,hc,hkey,hsh,-⟩ := shutConn_conns hc'
      exact ⟨conn,hc,hkey,hsh⟩
    · intro i conn' hc' hsh hk
      obtain ⟨-,-,-,-,ho⟩ := shutConn_conns hc'
      refine hk.imp id (held_setOpen (s := s.shutConn client) hop (by simp) fun err' heq => ?_)
      simp only [OpenPhase.refused.injEq] at heq
      exact ho hsh heq.1.symm
    · intro k i hmem
      exact opened_of_setOpen (s := s.shutConn client) (by simp) hmem
  · simp at hs

private theorem close_own : OwnInv s.close := by
  unfold close
  split
  · exact h
  refine ⟨h.kept,h.opened,h.cached,rfl,?_⟩
  intro clients hc i conn hco hca
  cases hc
  right
  have hlt : i < s.conns.length := lt_of_getElem? hco
  exact mem_filter.mpr ⟨mem_range.mpr hlt,by simpa [hco] using hca⟩

private theorem closeFlights_own (hs : s.closeFlights = some s') : OwnInv s' := by
  unfold closeFlights at hs
  split at hs
  next clients hc =>
    cases hs
    exact h.frame_same rfl rfl (fun _ => id) (fun _ _ => id) rfl (by rw [hc]; rfl)
  · simp at hs

private theorem closeNext_own (hs : s.closeNext = some s') : OwnInv s' := by
  unfold closeNext at hs
  split at hs
  next client clients hc =>
    cases hs
    refine h.frame (shutConn_length s client) ?_ (fun _ _ => id) (fun _ _ _ _ => id) (fun _ _ => id) rfl
      (by rw [hc]; rfl) ?_
    · intro i conn' hco'
      obtain ⟨conn,hco,hkey,hsh,-⟩ := shutConn_conns hco'
      exact ⟨conn,hco,hkey,hsh⟩
    · intro before after hb ha i conn' hco' hop hmem
      obtain ⟨-,-,-,-,ho⟩ := shutConn_conns hco'
      rw [hc] at hb
      cases hb
      cases ha
      exact (mem_cons.mp hmem).resolve_left (ho hop)
  · simp at hs

private theorem closeReturns_own (hs : s.closeReturns = some s') : OwnInv s' := by
  unfold closeReturns at hs
  split at hs
  next hc =>
    cases hs
    exact h.frame_same rfl rfl (fun _ => id) (fun _ _ => id) rfl (by rw [hc]; rfl)
  · simp at hs

private theorem appended_own {conn : ManagedConn} (ho : s.opens[work]? = some (key, .opening)) (hkey : conn.key = key)
    (hp : conn.shut = true ∧ (∀ i, phase ≠ .opened (.ok i)) ∨ phase = .opened (.ok s.conns.length)) :
    OwnInv ({ s with conns := s.conns ++ [conn] }.setOpen work key phase) := by
  have hlt : work < s.opens.length := lt_of_getElem? ho
  constructor
  · intro i c hget
    rcases of_getElem?_concat hget with hold | ⟨rfl,rfl⟩
    · rcases h.kept i c hold with hs | hca | hh
      · exact .inl hs
      · exact .inr (.inl hca)
      · exact .inr (.inr (held_setOpen (s := { s with conns := s.conns ++ [conn] }) ho (by simp) (by simp) hh))
    · rcases hp with ⟨hs,-⟩ | rfl
      · exact .inl hs
      · exact .inr (.inr (.inl ⟨key,mem_set hlt _⟩))
  · intro k i hmem
    rcases mem_or_eq_of_mem_set hmem with hmem | heq
    · obtain ⟨c,hget,hk⟩ := h.opened k i hmem
      exact ⟨c,getElem?_append_of hget _,hk⟩
    simp only [Prod.mk.injEq] at heq
    obtain ⟨rfl,heq⟩ := heq
    rcases hp with ⟨-,hne⟩ | rfl
    · exact absurd heq.symm (hne i)
    · simp only [OpenPhase.opened.injEq,Except.ok.injEq] at heq
      subst heq
      exact ⟨conn,getElem?_concat_length,hkey⟩
  · intro k i hca
    have := h.cached k i hca
    simp only [setOpen,length_append,length_singleton]
    omega
  · exact h.closed
  · intro clients hcl i c hget hca
    rcases of_getElem?_concat hget with hold | ⟨rfl,rfl⟩
    · exact h.closing clients hcl i c hold hca
    · exact absurd (h.cached _ _ hca) (Nat.lt_irrefl _)

private theorem opened_own {config : OpenConfig} {script : OpenScript}
    (hs : s.opened config work script = some s') : OwnInv s' := by
  unfold opened at hs
  split at hs
  next key ho =>
    have hlaw := openConnection_law config script key.address key.serverType
    dsimp only at hs
    split at hs
    · cases hs
      exact appended_own h ho rfl (.inr rfl)
    next err herr =>
      split at hs
      next hc =>
        cases hs
        exact appended_own h ho rfl (.inl ⟨(hlaw.failed err herr hc).1,by simp⟩)
      · cases hs
        exact setOpen_own h ho (by simp) (by simp) (by simp)
    · simp at hs
  · simp at hs

private theorem publish_own (hg : PublishesOnce s (.publish work)) (hs : s.publish work = some s') : OwnInv s' := by
  unfold publish at hs
  split at hs
  next key client ho =>
    split at hs
    · cases hs
      refine h.frame_same rfl rfl ?_ (fun _ _ hmem => opened_of_setOpen (by simp) hmem) rfl rfl
      intro i hh
      by_cases hi : i = client
      · subst hi
        exact .inr (.inl ⟨key,_,mem_set (lt_of_getElem? ho) _⟩)
      · exact held_setOpen ho (by simpa using Ne.symm hi) (by simp) hh
    next hcl =>
      cases hs
      have hf : s.clients key = none := by
        simp only [PublishesOnce,replaces,ho,any_some] at hg
        simpa [hcl] using hg
      have hn : s.closing.remaining = none := by
        have := h.closed
        simpa [hcl] using this
      constructor
      · intro i conn hco
        rcases h.kept i conn hco with hsh | hc | hh
        · exact .inl hsh
        · right
          left
          have hne : conn.key ≠ key := fun hkey => by
            rw [hkey,hf] at hc
            simp at hc
          simpa [setOpen,update_of_ne hne] using hc
        · by_cases hi : i = client
          · subst hi
            obtain ⟨conn',hco',hkey⟩ := h.opened key i (mem_of_getElem? ho)
            obtain rfl := some.inj (hco.symm.trans hco')
            right
            left
            simp [setOpen,hkey]
          · right
            right
            exact held_setOpen (s := { s with clients := update s.clients key (some client) }) ho
              (by simpa using Ne.symm hi) (by simp) hh
      · intro k i hmem
        have hmem : (k, OpenPhase.opened (.ok i)) ∈ (s.setOpen work key (.finished (some client) none)).opens := hmem
        exact h.opened k i (opened_of_setOpen (by simp) hmem)
      · intro k i hc
        by_cases hk : k = key
        · subst hk
          obtain ⟨conn,hco,-⟩ := h.opened k client (mem_of_getElem? ho)
          obtain rfl : client = i := by simpa [setOpen] using hc
          exact (lt_of_getElem? hco)
        · exact h.cached k i (by simpa [setOpen,update_of_ne hk] using hc)
      · exact h.closed
      · intro clients hcli
        have hno : s.closing.remaining = some clients := hcli
        rw [hn] at hno
        simp at hno
  next key err ho =>
    cases hs
    exact setOpen_own h ho (by simp) (by simp) (by simp)
  · simp at hs

theorem ownInv_step {config : OpenConfig} {e : ConnectionsEvent} (hg : PublishesOnce s e)
    (hs : s.step config e = some s') : OwnInv s' := by
  have hf : ∀ {e : CoalescerEvent ConnectionKey (Option Nat)}, s.flight e = some s' → OwnInv s' := by
    intro e hs
    obtain ⟨flights,-,hs⟩ := bind_eq_some_iff.mp hs
    cases hs
    exact flight_own h
  cases e with
  | get node =>
    cases hs
    exact get_own h node
  | join n => exact join_own h hs
  | receive n => exact receive_own h hs
  | send n api => exact send_own h hs
  | remove n => exact remove_own h hs
  | shutdown n => exact shutdown_own h hs
  | release n => exact release_own h hs
  | check work => exact check_own h hs
  | opened work script => exact opened_own h hs
  | publish work => exact publish_own h hg hs
  | discard work => exact discard_own h hs
  | finish work => exact finish_own h hs
  | complete | claim | leave => exact hf hs
  | close =>
    cases hs
    exact close_own h
  | closeFlights => exact closeFlights_own h hs
  | closeNext => exact closeNext_own h hs
  | closeReturns => exact closeReturns_own h hs
end Frame

theorem ownInv_reachable {config : OpenConfig} {s : Connections}
    (h : ((connectionsSystem config).guarded PublishesOnce).Reachable s) : OwnInv s := by
  refine System.Reachable.invariant (P := OwnInv) ?_ ?_ h
  · rintro _ rfl
    exact ⟨by simp,by simp,by simp,rfl,by simp [ClosePhase.remaining]⟩
  · rintro s e s' - hinv ⟨hs,hg⟩
    exact ownInv_step hinv hg hs

def OpenPhase.isOver : OpenPhase → Bool
  | .finished _ _ => true
  | .returned => true
  | _ => false

def GetPhase.isDropping : GetPhase → Bool
  | .dropping _ => true
  | _ => false
/-- No `open` is in progress, and no request stands between taking its client out of the cache and
shutting it down. -/
def Connections.Quiet (s : Connections) : Prop :=
  (∀ work ∈ s.opens, work.2.isOver = true) ∧ ∀ get ∈ s.gets, get.isDropping = false

instance (s : Connections) : Decidable s.Quiet := inferInstanceAs (Decidable (_ ∧ _))

theorem connections_are_owned (config : OpenConfig) (s : Connections)
    (h : ((connectionsSystem config).guarded PublishesOnce).Reachable s) (hquiet : s.Quiet) :
    (∀ (i : Nat) (conn : ManagedConn), s.conns[i]? = some conn → s.clients conn.key = some i ∨ conn.shut = true) ∧
      (s.closing = .returned → ∀ (i : Nat) (conn : ManagedConn), s.conns[i]? = some conn → conn.shut = true) := by
  have hinv := ownInv_reachable h
  have hkept : ∀ (i : Nat) (conn : ManagedConn), s.conns[i]? = some conn →
      s.clients conn.key = some i ∨ conn.shut = true := by
    intro i conn hconn
    rcases hinv.kept i conn hconn with hshut | hcached | ⟨key,hmem⟩ | ⟨key,err,hmem⟩ | hmem
    · exact .inr hshut
    · exact .inl hcached
    · exact absurd (hquiet.1 _ hmem) (by simp [OpenPhase.isOver])
    · exact absurd (hquiet.1 _ hmem) (by simp [OpenPhase.isOver])
    · exact absurd (hquiet.2 _ hmem) (by simp [GetPhase.isDropping])
  refine ⟨hkept,fun hreturned i conn hconn => ?_⟩
  rcases hkept i conn hconn with hcached | hshut
  · have hclosing := hinv.closing [] (by rw [hreturned]; rfl) i conn hconn hcached
    simpa using hclosing
  · exact hshut

private def dialedNode : ServerNode := ⟨1,"a",.tabletServer⟩

private def tabletScript : OpenScript where
  versions := .response (some ⟨[⟨1000,0,0⟩],2⟩)
/-- A connection is opened, fails and is replaced; `Close` shuts the second one down. -/
def reopenedConnection : List ConnectionsEvent :=
  [.get dialedNode, .join 0, .check 0, .opened 0 tabletScript, .publish 0, .finish 0, .complete 0, .claim 0, .receive 0,
    .send 0 1016, .remove 0, .shutdown 0, .get dialedNode, .join 1, .check 1, .opened 1 tabletScript, .publish 1,
    .finish 1, .complete 1, .claim 1, .receive 1, .release 1, .close, .closeFlights, .closeNext, .closeReturns]

theorem connections_are_owned_reopened :
    ∃ s : Connections, ((connectionsSystem {}).guarded PublishesOnce).Reachable s ∧ s.Quiet ∧ s.conns.length = 2 ∧
      ∀ (i : Nat) (conn : ManagedConn), s.conns[i]? = some conn → conn.shut = true := by
  obtain ⟨s,hreach,hs⟩ := System.Reachable.of_foldlM_any (T := (connectionsSystem {}).guarded PublishesOnce)
    (s := {}) (System.barred Connections.replaces (Connections.step {})) reopenedConnection
    (fun s => decide (s.Quiet ∧ s.closing = .returned ∧ s.conns.length = 2))
    rfl (fun _ _ _ _ h => System.guarded_of_barred id h) (by decide +kernel)
  obtain ⟨hquiet,hreturned,hlength⟩ := of_decide_eq_true hs
  exact ⟨s,hreach,hquiet,hlength,(connections_are_owned {} s hreach hquiet).2 hreturned⟩
/-- The only waiter of an `open` leaves when the connection is established and not yet published; the
`open` that replaces it finds nothing in the cache, and both publish. -/
def overwrittenConnection : List ConnectionsEvent :=
  [.get dialedNode, .join 0, .check 0, .opened 0 tabletScript, .leave 0 Sentinel.canceled.error, .receive 0,
    .get dialedNode, .join 1, .check 1, .publish 0, .finish 0, .complete 0, .opened 1 tabletScript, .publish 1, .finish 1,
    .complete 1, .claim 1, .receive 1, .release 1, .close, .closeFlights, .closeNext, .closeReturns]

theorem connections_lose_overwritten :
    ∃ s : Connections, (connectionsSystem {}).Reachable s ∧ s.Quiet ∧ s.closing = .returned ∧
      ∃ conn, s.conns[0]? = some conn ∧ s.clients conn.key = some 1 ∧ conn.shut = false := by
  obtain ⟨s,hreach,hs⟩ := System.Reachable.of_foldlM_any (T := connectionsSystem {}) (s := {})
    (Connections.step {}) overwrittenConnection
    (fun s => decide (s.Quiet ∧ s.closing = .returned) &&
      s.conns[0]?.any fun conn => s.clients conn.key == some 1 && !conn.shut)
    rfl (fun _ _ _ _ h => h) (by decide +kernel)
  simp only [Bool.and_eq_true,decide_eq_true_eq,any_eq_true_iff_get] at hs
  obtain ⟨⟨hquiet,hreturned⟩,hsome,hconn⟩ := hs
  simp only [beq_iff_eq,Bool.not_eq_true'] at hconn
  exact ⟨s,hreach,hquiet,hreturned,_,(some_get hsome).symm,hconn⟩
end FlussGo
