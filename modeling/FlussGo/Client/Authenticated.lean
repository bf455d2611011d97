import FlussGo.Client.Connections
import FlussGo.Coalesce.Values
/-!
# Authenticated connections

With an authenticator factory, every connection that the manager caches, shares or hands out has passed
`authenticate`, whatever the server and the authenticator do.
-/
namespace FlussGo
open List Option Connections GetPhase Function
/-- What holds of every connection that was opened with an authenticator factory. -/
structure AuthLaw (conn : ManagedConn) : Prop where
  complete : conn.authenticated = true → ExchangeComplete conn.exchange
  sent : callsOf AuthEvent.isSent conn.exchange ≤ 16
  refused : conn.authenticated = false →
    conn.shut = true ∧ ∀ key ∈ conn.written, key = APIKey.apiVersions ∨ key = APIKey.authenticate

def Connections.Authenticated (s : Connections) (i : Nat) : Prop :=
  ∃ conn, s.conns[i]? = some conn ∧ conn.authenticated = true
/-- The client that an `open` has in hand for the cache or its waiters. -/
def OpenPhase.client : OpenPhase → Option Nat
  | .opened (.ok client) => some client
  | .finished client none => client
  | _ => none
/-- The client to which a request may be handed. -/
def GetPhase.client : GetPhase → Option Nat
  | .using _ client => some client
  | _ => none

structure AuthInv (s : Connections) : Prop where
  conns : ∀ (i : Nat) (conn : ManagedConn), s.conns[i]? = some conn → AuthLaw conn
  cached : ∀ key i, s.clients key = some i → s.Authenticated i
  opens : ∀ work ∈ s.opens, ∀ i, work.2.client = some i → s.Authenticated i
  gets : ∀ get ∈ s.gets, ∀ i, get.client = some i → s.Authenticated i
  sharing : SharingInv s.flights
  flights : s.flights.Carries fun _ client => ∀ i, client = some i → s.Authenticated i

section Frame
variable {s s' : Connections} {n work : Nat}

variable (h : AuthInv s)
include h

private theorem AuthInv.frame (hco : ∀ (i : Nat) (conn : ManagedConn), s'.conns[i]? = some conn → AuthLaw conn)
    (hk : ∀ i, s.Authenticated i → s'.Authenticated i)
    (hc : ∀ key i, s'.clients key = some i → s.clients key = some i ∨ s'.Authenticated i)
    (ho : ∀ work ∈ s'.opens, work ∈ s.opens ∨ ∀ i, work.2.client = some i → s'.Authenticated i)
    (hg : ∀ get ∈ s'.gets, get ∈ s.gets ∨ ∀ i, get.client = some i → s'.Authenticated i) (hs : SharingInv s'.flights)
    (hf : s'.flights.Carries fun _ client => ∀ i, client = some i → s.Authenticated i) : AuthInv s' where
  conns := hco
  cached key i hcached := (hc key i hcached).elim (fun hold => hk i (h.cached key i hold)) id
  opens work hwork i hi := (ho work hwork).elim (fun hold => hk i (h.opens work hold i hi)) fun hnew => hnew i hi
  gets get hget i hi := (hg get hget).elim (fun hold => hk i (h.gets get hold i hi)) fun hnew => hnew i hi
  sharing := hs
  flights := hf.mono fun _ _ hcl i hi => hk i (hcl i hi)

private theorem setGet_auth {phase : GetPhase}
    (hp : ∀ i, phase.client = some i → s.Authenticated i) : AuthInv (s.setGet n phase) := by
  refine h.frame h.conns (fun _ => id) (fun _ _ => .inl) (fun _ => .inl) ?_ h.sharing h.flights
  intro get hget
  rcases mem_or_eq_of_mem_set hget with hget | rfl
  · exact .inl hget
  · exact .inr hp

private theorem setOpen_auth {key : ConnectionKey} {phase : OpenPhase}
    (hp : ∀ i, phase.client = some i → s.Authenticated i) : AuthInv (s.setOpen work key phase) := by
  refine h.frame h.conns (fun _ => id) (fun _ _ => .inl) ?_ (fun _ => .inl) h.sharing h.flights
  intro w hw
  rcases mem_or_eq_of_mem_set hw with hw | rfl
  · exact .inl hw
  · exact .inr hp

private theorem modify_auth {client : Nat} {f : ManagedConn → ManagedConn}
    (hf : ∀ conn, (f conn).authenticated = conn.authenticated)
    (hlaw : ∀ conn, s.conns[client]? = some conn → AuthLaw conn → AuthLaw (f conn)) :
    AuthInv { s with conns := s.conns.modify client f } := by
  refine h.frame ?_ ?_ (fun _ _ => .inl) (fun _ => .inl) (fun _ => .inl) h.sharing h.flights
  · intro i conn' hc'
    rw [getElem?_modify] at hc'
    obtain ⟨conn,hc,rfl⟩ := map_eq_some_iff.mp hc'
    split
    next hi =>
      subst hi
      exact hlaw conn hc (h.conns client conn hc)
    · exact h.conns i conn hc
  · rintro i ⟨conn,hc,ha⟩
    refine ⟨if client = i then f conn else conn,?_,?_⟩
    · simp only [getElem?_modify,hc]
      split <;> rfl
    · split
      · rw [hf]
        exact ha
      · exact ha

private theorem shutConn_auth (client : Nat) : AuthInv (s.shutConn client) :=
  modify_auth h (fun _ => rfl) fun _ _ hlaw => ⟨hlaw.complete,hlaw.sent,fun hno => ⟨rfl,(hlaw.refused hno).2⟩⟩

private theorem flights_auth {e : CoalescerEvent ConnectionKey (Option Nat)}
    {flights : Coalescer ConnectionKey (Option Nat)} (hs : s.flights.step e = some flights)
    (hw : ∀ id client, e = .workReturns id client none → ∀ i, client = some i → s.Authenticated i) :
    AuthInv { s with flights } :=
  h.frame h.conns (fun _ => id) (fun _ _ => .inl) (fun _ => .inl) (fun _ => .inl) (sharingInv_step h.sharing hs)
    (carries_step h.sharing h.flights hw hs)

private theorem flight_auth {e : CoalescerEvent ConnectionKey (Option Nat)}
    (hs : s.flight e = some s') (hw : ∀ id client, e ≠ .workReturns id client none) : AuthInv s' := by
  obtain ⟨flights,hf,hs⟩ := bind_eq_some_iff.mp hs
  cases hs
  exact flights_auth h hf fun id client he => absurd he (hw id client)

private theorem get_auth (node : ServerNode) : AuthInv (s.get node) := by
  refine h.frame h.conns (fun _ => id) (fun _ _ => .inl) (fun _ => .inl) ?_ h.sharing h.flights
  intro get hget
  rcases mem_append.mp hget with hget | hget
  · exact .inl hget
  right
  obtain rfl := mem_singleton.mp hget
  intro i hi
  split at hi
  · simp [client] at hi
  split at hi
  · rename_i client hc
    obtain rfl := some.inj hi
    exact h.cached node client hc
  · simp [client] at hi

private theorem join_auth (hs : s.join n = some s') : AuthInv s' := by
  unfold Connections.join at hs
  split at hs
  next key hget =>
    simp only [some.injEq] at hs
    subst hs
    have he : s.flights.step (.enter key false) = some (s.flights.enter key false) := rfl
    refine h.frame h.conns (fun _ => id) (fun _ _ => .inl) ?_ ?_ (sharingInv_step h.sharing he)
      (carries_step h.sharing h.flights (by simp) he)
    · intro work hw
      split at hw
      · exact .inl hw
      · rcases mem_append.mp hw with hw | hw
        · exact .inl hw
        · obtain rfl := mem_singleton.mp hw
          exact .inr (by simp [OpenPhase.client])
    · intro get hget
      rcases mem_or_eq_of_mem_set hget with hget | rfl
      · exact .inl hget
      · exact .inr (by simp [client])
  · simp at hs

private theorem receive_auth (hs : s.receive n = some s') : AuthInv s' := by
  unfold receive at hs
  split at hs
  next key waiter hget =>
    split at hs
    next id client hw =>
      cases hs
      apply setGet_auth h
      intro i hi
      exact h.flights.shared h.sharing hw i hi
    · cases hs
      exact setGet_auth h (by simp [client])
    · simp at hs
  · simp at hs

private theorem send_auth {api : APIKey} (hs : s.send n api = some s') : AuthInv s' := by
  unfold send at hs
  split at hs
  next key client hget =>
    cases hs
    obtain ⟨conn₀,hc,ha⟩ := h.gets _ (mem_of_getElem? hget) client rfl
    apply modify_auth h
    · intro conn
      split <;> rfl
    · intro conn hco hlaw
      cases hc.symm.trans hco
      split
      · exact hlaw
      · exact ⟨hlaw.complete,hlaw.sent,fun hno => by simp [ha] at hno⟩
  · simp at hs

private theorem remove_auth (hs : s.remove n = some s') : AuthInv s' := by
  unfold remove at hs
  split at hs
  next key client hget =>
    simp only [some.injEq] at hs
    subst hs
    refine h.frame h.conns (fun _ => id) ?_ (fun _ => .inl) ?_ h.sharing h.flights
    · intro k i hc
      left
      dsimp only at hc
      split at hc
      · by_cases hk : k = key
        · subst hk
          simp at hc
        · rwa [update_of_ne hk] at hc
      · exact hc
    · intro get hget
      rcases mem_or_eq_of_mem_set hget with hget | rfl
      · exact .inl hget
      · exact .inr (by simp [GetPhase.client])
  · simp at hs

private theorem shutdown_auth (hs : s.shutdown n = some s') : AuthInv s' := by
  unfold shutdown at hs
  split at hs
  · cases hs
    exact setGet_auth (shutConn_auth h _) (by simp [client])
  · simp at hs

private theorem release_auth (hs : s.release n = some s') : AuthInv s' := by
  unfold release at hs
  split at hs
  · cases hs
    exact setGet_auth h (by simp [client])
  · simp at hs

private theorem check_auth (hs : s.check work = some s') : AuthInv s' := by
  unfold check at hs
  split at hs
  next key ho =>
    split at hs
    · cases hs
      exact setOpen_auth h (by simp [OpenPhase.client])
    split at hs
    next client hc =>
      cases hs
      apply setOpen_auth h
      intro i hi
      cases hi
      exact h.cached key client hc
    · cases hs
      exact setOpen_auth h (by simp [OpenPhase.client])
  · simp at hs

private theorem appended_auth {conn : ManagedConn} (hlaw : AuthLaw conn) :
    AuthInv { s with conns := s.conns ++ [conn] } := by
  refine h.frame ?_ ?_ (fun _ _ => .inl) (fun _ => .inl) (fun _ => .inl) h.sharing h.flights
  · intro i conn' hc'
    rcases mem_append.mp (mem_of_getElem? hc') with hmem | hmem
    · obtain ⟨j,hj⟩ := mem_iff_getElem?.mp hmem
      exact h.conns j conn' hj
    · obtain rfl := mem_singleton.mp hmem
      exact hlaw
  · rintro i ⟨c,hc,ha⟩
    exact ⟨c,getElem?_append_of hc _,ha⟩

private theorem opened_auth {config : OpenConfig} {script : OpenScript}
    (hf : config.authFactory = true) (hs : s.opened config work script = some s') : AuthInv s' := by
  unfold opened at hs
  split at hs
  next key ho =>
    have hlaw := openConnection_law config script key.address key.serverType
    dsimp only at hs
    split at hs
    next connection hok =>
      cases hs
      have ha := (hlaw.returned connection hok).2.2 hf
      apply setOpen_auth
      · exact appended_auth h ⟨hlaw.authenticated,hlaw.exchange,fun hno => by simp [ha] at hno⟩
      · intro i hi
        cases hi
        exact ⟨_,getElem?_concat_length,ha⟩
    next err herr =>
      split at hs
      next hc =>
        cases hs
        obtain ⟨hsh,hno⟩ := hlaw.failed err herr hc
        apply setOpen_auth
        · exact appended_auth h ⟨hlaw.authenticated,hlaw.exchange,fun _ => ⟨hsh,hlaw.written⟩⟩
        · simp [OpenPhase.client]
      · cases hs
        exact setOpen_auth h (by simp [OpenPhase.client])
    · simp at hs
  · simp at hs

private theorem publish_auth (hs : s.publish work = some s') : AuthInv s' := by
  unfold publish at hs
  split at hs
  next key client ho =>
    have ha : s.Authenticated client := h.opens _ (mem_of_getElem? ho) client rfl
    split at hs
    · cases hs
      exact setOpen_auth h (by simp [OpenPhase.client])
    cases hs
    apply setOpen_auth
    · refine h.frame h.conns (fun _ => id) ?_ (fun _ => .inl) (fun _ => .inl) h.sharing h.flights
      intro k i hc
      by_cases hk : k = key
      · subst hk
        simp only [update_self,some.injEq] at hc
        subst hc
        exact .inr ha
      · simp only [update_of_ne hk] at hc
        exact .inl hc
    · intro i hi
      cases hi
      exact ha
  · cases hs
    exact setOpen_auth h (by simp [OpenPhase.client])
  · simp at hs

private theorem discard_auth (hs : s.discard work = some s') : AuthInv s' := by
  unfold Connections.discard at hs
  split at hs
  · cases hs
    exact setOpen_auth (shutConn_auth h _) (by simp [OpenPhase.client])
  · simp at hs

private theorem finish_auth (hs : s.finish work = some s') : AuthInv s' := by
  unfold finish at hs
  split at hs
  next key client err ho =>
    obtain ⟨flights,hf,hs⟩ := bind_eq_some_iff.mp hs
    cases hs
    apply setOpen_auth
    · apply flights_auth h (e := .workReturns work client (err.map ClientError.toGo)) hf
      intro id value he i hi
      simp only [CoalescerEvent.workReturns.injEq,map_eq_none_iff] at he
      obtain ⟨rfl,rfl,rfl⟩ := he
      exact h.opens _ (mem_of_getElem? ho) i hi
    · simp [OpenPhase.client]
  · simp at hs

private theorem close_auth : AuthInv s.close := by
  unfold close
  split
  · exact h
  · exact ⟨h.conns,h.cached,h.opens,h.gets,h.sharing,h.flights⟩

private theorem closeFlights_auth (hs : s.closeFlights = some s') : AuthInv s' := by
  unfold closeFlights at hs
  split at hs
  · cases hs
    have := flights_auth h (e := .close (some Sentinel.closed.error)) rfl (by simp)
    exact ⟨this.conns,this.cached,this.opens,this.gets,this.sharing,this.flights⟩
  · simp at hs

private theorem closeNext_auth (hs : s.closeNext = some s') : AuthInv s' := by
  unfold closeNext at hs
  split at hs
  next client clients hc =>
    cases hs
    have := shutConn_auth h client
    exact ⟨this.conns,this.cached,this.opens,this.gets,this.sharing,this.flights⟩
  · simp at hs

private theorem closeReturns_auth (hs : s.closeReturns = some s') : AuthInv s' := by
  unfold closeReturns at hs
  split at hs
  · cases hs
    exact ⟨h.conns,h.cached,h.opens,h.gets,h.sharing,h.flights⟩
  · simp at hs

theorem authInv_step {config : OpenConfig} {e : ConnectionsEvent} (hf : config.authFactory = true)
    (hs : s.step config e = some s') : AuthInv s' := by
  cases e with
  | get node =>
    cases hs
    exact get_auth h node
  | join n => exact join_auth h hs
  | receive n => exact receive_auth h hs
  | send n api => exact send_auth h hs
  | remove n => exact remove_auth h hs
  | shutdown n => exact shutdown_auth h hs
  | release n => exact release_auth h hs
  | check work => exact check_auth h hs
  | opened work script => exact opened_auth h hf hs
  | publish work => exact publish_auth h hs
  | discard work => exact discard_auth h hs
  | finish work => exact finish_auth h hs
  | complete | claim | leave => exact flight_auth h hs (by simp)
  | close =>
    cases hs
    exact close_auth h
  | closeFlights => exact closeFlights_auth h hs
  | closeNext => exact closeNext_auth h hs
  | closeReturns => exact closeReturns_auth h hs
end Frame

theorem authInv_reachable {config : OpenConfig} {s : Connections} (hf : config.authFactory = true)
    (h : (connectionsSystem config).Reachable s) : AuthInv s := by
  refine System.Reachable.invariant (P := AuthInv) ?_ (fun _ _ _ _ hinv hs => authInv_step hinv hf hs) h
  rintro _ rfl
  refine ⟨by simp,by simp,by simp,by simp,?_,?_⟩
  · exact sharingInv_reachable (.init rfl)
  · simp [Coalescer.Carries,newCoalescer]
/-- What an authenticator factory guarantees of the manager's connections. -/
structure HandsOutAuthenticated (s : Connections) : Prop where
  cached : ∀ key i, s.clients key = some i → s.Authenticated i
  shared : ∀ (w id i : Nat), s.flights.waiters[w]? = some (.returned (.shared id (some i) none)) → s.Authenticated i
  used : ∀ (n i : Nat) key, s.gets[n]? = some (.using key i) → s.Authenticated i
  conns : ∀ (i : Nat) (conn : ManagedConn), s.conns[i]? = some conn → AuthLaw conn

theorem connections_are_authenticated (config : OpenConfig) (hfactory : config.authFactory = true) (s : Connections)
    (h : (connectionsSystem config).Reachable s) :
    HandsOutAuthenticated s ∧ ∀ connection auth server,
      ((authenticate connection auth server).1 = .ok () → ExchangeComplete (authenticate connection auth server).2) ∧
        callsOf AuthEvent.isSent (authenticate connection auth server).2 ≤ 16 := by
  have hinv := authInv_reachable hfactory h
  refine ⟨⟨hinv.cached,?_,?_,hinv.conns⟩,fun connection auth server => ⟨authenticate_ok,authenticate_sent connection auth server⟩⟩
  · intro w id i hwaiter
    exact hinv.flights.shared hinv.sharing hwaiter i rfl
  · intro n i key hget
    exact hinv.gets _ (mem_of_getElem? hget) i rfl

private def oneToken (complete : Bool) : Authenticator where
  protocol _ := "PLAIN"
  hasInitialResponse := true
  authenticate _ := .ok (some [1])
  complete _ := complete

private def plainScript (complete : Bool) : OpenScript where
  versions := .response (some ⟨[⟨1000,0,0⟩, ⟨1038,0,0⟩],2⟩)
  factory := .ok (some (oneToken complete))
  server _ := .response (.authenticate none)
/-- Two servers, of which the second one ends the exchange too early. -/
def authenticatedOnce : List ConnectionsEvent :=
  [.get ⟨1,"a",.tabletServer⟩, .join 0, .check 0, .opened 0 (plainScript true), .publish 0, .finish 0, .complete 0,
    .claim 0, .receive 0, .send 0 1016, .get ⟨2,"b",.tabletServer⟩, .join 1, .check 1, .opened 1 (plainScript false),
    .publish 1, .finish 1, .complete 1, .claim 1, .receive 1]

theorem connections_are_authenticated_once :
    ∃ s : Connections, (connectionsSystem { authFactory := true }).Reachable s ∧ s.conns.length = 2 ∧
      s.clients ⟨1, "a", .tabletServer⟩ = some 0 ∧ s.clients ⟨2, "b", .tabletServer⟩ = none ∧ HandsOutAuthenticated s := by
  obtain ⟨s,hreach,hs⟩ := System.Reachable.of_foldlM_any (T := connectionsSystem { authFactory := true }) (s := {})
    (Connections.step { authFactory := true }) authenticatedOnce
    (fun s => decide (s.conns.length = 2 ∧ s.clients ⟨1,"a",.tabletServer⟩ = some 0 ∧
      s.clients ⟨2,"b",.tabletServer⟩ = none))
    rfl (fun _ _ _ _ h => h) (by decide +kernel)
  obtain ⟨hlength,hfirst,hsecond⟩ := of_decide_eq_true hs
  exact ⟨s,hreach,hlength,hfirst,hsecond,(connections_are_authenticated _ rfl s hreach).1⟩
end FlussGo
