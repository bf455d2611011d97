import FlussGo.Go.Basic
import FlussGo.Lib.Bytes
import FlussGo.Lib.Run
import Mathlib.Tactic.Common
/-!
# Filesystem security tokens

`securityTokenManager` of `security_token.go`: one goroutine acquires tokens and publishes them through
the receivers, while `Current` is called at any time and `Stop` cancels the context. The delays are left out:
a refresh may begin whenever the goroutine waits.
-/
namespace FlussGo
structure FileSystemSecurityToken where
  schema : String := ""
  token : Bytes := []
  /-- The zero time is `none`. -/
  expiresAt : Option Int := none
  additionalInfo : List (String × String) := []
  revoked : Bool := false
deriving DecidableEq
/-- The settings that the modelled functions read. -/
structure TokenConfig where
  clockSkew : Int
  receivers : Nat

def tokenExpired (token : FileSystemSecurityToken) (now skew : Int) : Bool :=
  match token.expiresAt with
  | none => false
  | some expiresAt => !(now + skew < expiresAt)

def validateSecurityToken (token : FileSystemSecurityToken) (now skew : Int) : Bool :=
  if trimSpace token.schema = "" then false else token.revoked || !tokenExpired token now skew

inductive Acquired where
  | token (token : FileSystemSecurityToken)
  /-- An error that is `ErrSecurityTokenProviderDisabled`. -/
  | disabled
  | failed
deriving DecidableEq

inductive RefreshPhase where
  | notStarted
  | waiting
  | acquiring
  | publishing (token : FileSystemSecurityToken) (receivers : Nat)
  | published (token : FileSystemSecurityToken)
  | ended
deriving DecidableEq

structure TokenManager where
  current : FileSystemSecurityToken := {}
  available : Bool := false
  disabled : Bool := false
  failures : Nat := 0
  stopped : Bool := false
  phase : RefreshPhase := .notStarted
  /-- A refresh has ended in which the provider returned a valid revoked token or was disabled, and no
  other token has been published since. -/
  withdrawn : Bool := false
deriving DecidableEq

inductive TokenEvent where
  | start
  | stop
  | wake
  | quit
  | acquired (result : Acquired) (now : Int)
  /-- A receiver returns nil; or it fails, panics or is given up with the context. -/
  | received (accepted : Bool)
  /-- The critical section of `publish`. -/
  | publish
  /-- The rest of `refreshOnce`. -/
  | conclude
deriving DecidableEq

namespace TokenManager
def currentToken (config : TokenConfig) (m : TokenManager) (now : Int) : Option FileSystemSecurityToken :=
  if !m.available || tokenExpired m.current now config.clockSkew then none else some m.current

def disable (m : TokenManager) : TokenManager :=
  { m with current := {}, available := false, disabled := true, phase := .ended, withdrawn := true }

def failedDelay (m : TokenManager) : TokenManager := { m with failures := m.failures + 1, phase := .waiting }

def acquired (config : TokenConfig) (m : TokenManager) (now : Int) : Acquired → TokenManager
  | .disabled => m.disable
  | .failed => m.failedDelay
  | .token token =>
    if validateSecurityToken token now config.clockSkew then { m with phase := .publishing token config.receivers }
    else m.failedDelay
/-- `publish` fails; `refreshOnce` looks at the context. -/
def rejected (m : TokenManager) (token : FileSystemSecurityToken) : TokenManager :=
  let m := { m with withdrawn := m.withdrawn || token.revoked }
  if m.stopped then { m with phase := .ended } else m.failedDelay

def publish (m : TokenManager) (token : FileSystemSecurityToken) : TokenManager :=
  if token.revoked then { m with current := {}, available := false, phase := .published token }
  else { m with current := token, available := true, phase := .published token, withdrawn := false }

def conclude (m : TokenManager) (token : FileSystemSecurityToken) : TokenManager :=
  let m := { m with failures := 0, withdrawn := m.withdrawn || token.revoked }
  if !token.revoked && token.expiresAt.isNone then { m with phase := .ended } else { m with phase := .waiting }

def step (config : TokenConfig) (m : TokenManager) (e : TokenEvent) : Option TokenManager :=
  match e, m.phase with
  | .start, .notStarted => if m.stopped then none else some { m with phase := .waiting }
  | .stop, _ => some { m with stopped := true }
  | .wake, .waiting => some { m with phase := .acquiring }
  | .quit, .waiting => if m.stopped then some { m with phase := .ended } else none
  | .acquired result now, .acquiring => some (m.acquired config now result)
  | .received true, .publishing token (receivers + 1) => some { m with phase := .publishing token receivers }
  | .received false, .publishing token (_ + 1) => some (m.rejected token)
  | .publish, .publishing token 0 => some (m.publish token)
  | .conclude, .published token => some (m.conclude token)
  | _, _ => none
end TokenManager

def tokenSystem (config : TokenConfig) : System TokenManager TokenEvent where
  init m := m = {}
  step m e m' := m.step config e = some m'
/-- The publication of a revoked token fails while another one is available. -/
def TokenManager.keepsRevoked (m : TokenManager) (e : TokenEvent) : Bool :=
  match e, m.phase with
  | .received false, .publishing token _ => token.revoked && m.available
  | _, _ => false

def PublishesRevocation (m : TokenManager) (e : TokenEvent) : Prop := m.keepsRevoked e = false

structure TokenInv (m : TokenManager) : Prop where
  withdrawn : m.withdrawn = true → m.available = false
  published : ∀ token, m.phase = .published token → token.revoked = true → m.available = false

section Steps
variable {config : TokenConfig} {m m' : TokenManager}

private theorem TokenInv.failedDelay (h : TokenInv m) : TokenInv m.failedDelay :=
  ⟨h.withdrawn,by simp [TokenManager.failedDelay]⟩

private theorem TokenInv.acquired (h : TokenInv m) (now : Int) (result : Acquired) :
    TokenInv (m.acquired config now result) := by
  cases result with
  | disabled => exact ⟨fun _ => rfl,by simp [TokenManager.acquired,TokenManager.disable]⟩
  | failed => exact h.failedDelay
  | token token =>
    simp only [TokenManager.acquired]
    split
    · exact ⟨h.withdrawn,by simp⟩
    · exact h.failedDelay

private theorem TokenInv.rejected {token : FileSystemSecurityToken} (h : TokenInv m)
    (hg : (token.revoked && m.available) = false) : TokenInv (m.rejected token) := by
  have hw : (m.withdrawn || token.revoked) = true → m.available = false := by
    intro hor
    rcases Bool.or_eq_true_iff.mp hor with hold | hr
    · exact h.withdrawn hold
    · simpa [hr] using hg
  unfold TokenManager.rejected
  dsimp only
  split
  · exact ⟨hw,by simp⟩
  · exact ⟨hw,by simp [TokenManager.failedDelay]⟩

private theorem publish_inv (m : TokenManager) (token : FileSystemSecurityToken) : TokenInv (m.publish token) := by
  unfold TokenManager.publish
  split
  · exact ⟨fun _ => rfl,fun _ _ _ => rfl⟩
  rename_i hv
  refine ⟨by simp,?_⟩
  intro token' hp hr
  obtain rfl : token = token' := by simpa using hp
  exact absurd hr hv

private theorem TokenInv.conclude {token : FileSystemSecurityToken} (h : TokenInv m)
    (hp : m.phase = .published token) : TokenInv (m.conclude token) := by
  have hw : (m.withdrawn || token.revoked) = true → m.available = false := by
    intro hor
    rcases Bool.or_eq_true_iff.mp hor with hold | hr
    · exact h.withdrawn hold
    · exact h.published token hp hr
  unfold TokenManager.conclude
  split
  · exact ⟨hw,by simp⟩
  · exact ⟨hw,by simp⟩

theorem tokenInv_step {e : TokenEvent} (h : TokenInv m) (hg : PublishesRevocation m e)
    (hs : m.step config e = some m') : TokenInv m' := by
  unfold TokenManager.step at hs
  split at hs
  · split at hs
    · simp at hs
    · cases hs
      exact ⟨h.withdrawn,by simp⟩
  · cases hs
    exact ⟨h.withdrawn,h.published⟩
  · cases hs
    exact ⟨h.withdrawn,by simp⟩
  · split at hs
    · cases hs
      exact ⟨h.withdrawn,by simp⟩
    · simp at hs
  · cases hs
    exact h.acquired _ _
  · cases hs
    exact ⟨h.withdrawn,by simp⟩
  next token receivers hp =>
    cases hs
    exact h.rejected (by simpa [PublishesRevocation,TokenManager.keepsRevoked,hp] using hg)
  · cases hs
    exact publish_inv m _
  next token hp =>
    cases hs
    exact h.conclude hp
  · simp at hs

theorem tokenInv_reachable (h : ((tokenSystem config).guarded PublishesRevocation).Reachable m) : TokenInv m := by
  refine System.Reachable.invariant (P := TokenInv) ?_ ?_ h
  · rintro _ rfl
    exact ⟨by simp,by simp⟩
  · rintro m e m' - hinv ⟨hs,hg⟩
    exact tokenInv_step hinv hg hs
end Steps
/-- A token is returned only while the clock with the skew has not reached its expiry. -/
theorem currentToken_unexpired {config : TokenConfig} {m : TokenManager} {now expiresAt : Int}
    {token : FileSystemSecurityToken} (h : m.currentToken config now = some token)
    (he : token.expiresAt = some expiresAt) : now + config.clockSkew < expiresAt := by
  unfold TokenManager.currentToken at h
  split at h
  · simp at h
  next hc =>
    cases h
    simp only [Bool.or_eq_true,not_or,tokenExpired,he] at hc
    simpa using hc.2

theorem tokens_are_withheld (config : TokenConfig) :
    (∀ m, (tokenSystem config).Reachable m → ∀ now token expiresAt, m.currentToken config now = some token →
        token.expiresAt = some expiresAt → now + config.clockSkew < expiresAt) ∧
      ∀ m, ((tokenSystem config).guarded PublishesRevocation).Reachable m → m.withdrawn = true →
        ∀ now, m.currentToken config now = none := by
  constructor
  · exact fun m _ now token expiresAt hcurrent hexpires => currentToken_unexpired hcurrent hexpires
  · intro m h hwithdrawn now
    simp [TokenManager.currentToken,(tokenInv_reachable h).withdrawn hwithdrawn]

private def sessionToken (revoked : Bool) : FileSystemSecurityToken where
  schema := "s3"
  token := [1]
  expiresAt := some 100
  revoked := revoked

private def tokenPublished : List TokenEvent :=
  [.start, .wake, .acquired (.token (sessionToken false)) 0, .received true, .publish, .conclude]
/-- A token is published and revoked; the receiver accepts both. -/
theorem tokens_are_withheld_revoked :
    ∃ m, ((tokenSystem ⟨30, 1⟩).guarded PublishesRevocation).Reachable m ∧ m.withdrawn = true ∧
      m.currentToken ⟨30, 1⟩ 10 = none := by
  obtain ⟨m,hreach,hm⟩ := System.Reachable.of_foldlM_any (T := (tokenSystem ⟨30,1⟩).guarded PublishesRevocation) (s := {})
    (System.barred TokenManager.keepsRevoked (TokenManager.step ⟨30,1⟩))
    (tokenPublished ++ [.wake, .acquired (.token (sessionToken true)) 1, .received true, .publish, .conclude])
    (fun m => m.withdrawn) rfl (fun _ _ _ _ h => System.guarded_of_barred id h) (by decide +kernel)
  exact ⟨m,hreach,hm,(tokens_are_withheld ⟨30,1⟩).2 m hreach hm 10⟩
/-- The receiver rejects the revoked token, and the one before it stays available. -/
theorem tokens_survive_revocation :
    ∃ m, (tokenSystem ⟨30, 1⟩).Reachable m ∧ m.withdrawn = true ∧ m.phase = .waiting ∧
      m.currentToken ⟨30, 1⟩ 10 = some (sessionToken false) := by
  obtain ⟨m,hreach,hm⟩ := System.Reachable.of_foldlM_any (T := tokenSystem ⟨30,1⟩) (s := {})
    (TokenManager.step ⟨30,1⟩)
    (tokenPublished ++ [.wake, .acquired (.token (sessionToken true)) 1, .received false])
    (fun m => decide (m.withdrawn = true ∧ m.phase = .waiting ∧ m.currentToken ⟨30,1⟩ 10 = some (sessionToken false)))
    rfl (fun _ _ _ _ h => h) (by decide +kernel)
  exact ⟨m,hreach,of_decide_eq_true hm⟩
end FlussGo
