import FlussGo.Client.Error
import Mathlib.Data.List.Basic
import Mathlib.Tactic.Common
/-!
# Retries of requests

`connectionManager.request`, `RequestTo` and `RequestBucket` with the decisions that send a request once
more. Connections, server and contexts are given by what they return at each attempt.
-/
namespace FlussGo
open List Except
structure RetryPolicy where
  maxAttempts : Int
  backoff : Int → Int := fun _ => 0

def safeToRetry (key : APIKey) : Bool :=
  [APIKey.apiVersions, APIKey.getTableInfo, APIKey.listTables, APIKey.listDatabases, APIKey.databaseExists,
    APIKey.tableExists, APIKey.getMetadata, APIKey.getTableSchema, APIKey.listPartitionInfos, APIKey.getTableStats,
    APIKey.listOffsets].contains key

variable {ρ : Type}
/-- What one attempt meets, in the order in which it is asked for. -/
structure Attempt (ρ : Type) where
  node : Option ClientError := none
  /-- The connection was shut down before the request is written. -/
  closed : Bool := false
  address : String := ""
  version : Option Int := some 0
  setVersion : Option ClientError := none
  outcome : RequestOutcome ρ
  /-- `ctx.Err()` when the failure is examined. -/
  canceled : Option ClientError := none
  /-- The timer of the backoff fires before the context ends, and the context's error. -/
  fired : Bool := true
  interrupted : Option ClientError := none
/-- A returned value, and the answers to the requests handed to a connection on the way. -/
structure Sent (ρ : Type) where
  answers : List (RequestOutcome ρ)
  result : Except ClientError ρ

def Attempt.request (a : Attempt ρ) (key : APIKey) : Sent ρ :=
  if a.closed then ⟨[],.error clientClosedError⟩
  else
    match a.version with
    | none => ⟨[],.error (clientError s!"fgo: server does not support API: {key}")⟩
    | some _ =>
      match a.setVersion with
      | some err => ⟨[],.error err⟩
      | none => ⟨[a.outcome],serverError key a.address a.outcome⟩

def RetryPolicy.shouldRetry (policy : RetryPolicy) (canceled : Option ClientError) (key : APIKey) (err : ClientError)
    (attempt : Int) : Bool :=
  if canceled.isSome || decide (policy.maxAttempts ≤ attempt) || !safeToRetry key then false
  else err.server.any (·.retriable) || shouldReplaceConnection err

def waitRetry (delay : Int) (fired : Bool) (interrupted : Option ClientError) : Option ClientError :=
  if delay ≤ 0 then interrupted else if fired then none else interrupted

def RetryPolicy.requestFrom (policy : RetryPolicy) (key : APIKey) (attempts : Int → Attempt ρ) :
    Nat → Int → Sent ρ
  | 0, _ => ⟨[],.error (clientError "fgo: retry attempts exhausted")⟩
  | remaining + 1, attempt =>
    let a := attempts attempt
    match a.node with
    | some err => ⟨[],.error err⟩
    | none =>
      let sent := a.request key
      match sent.result with
      | .ok _ => sent
      | .error err =>
        if !policy.shouldRetry a.canceled key err attempt then sent
        else
          match waitRetry (policy.backoff attempt) a.fired a.interrupted with
          | some err => ⟨sent.answers,.error err⟩
          | none =>
            let rest := policy.requestFrom key attempts remaining (attempt + 1)
            ⟨sent.answers ++ rest.answers,rest.result⟩

def RetryPolicy.request (policy : RetryPolicy) (key : APIKey) (attempts : Int → Attempt ρ) : Sent ρ :=
  policy.requestFrom key attempts policy.maxAttempts.toNat 1
/-- What one `RequestTo` meets: whether the client is closed, and its attempts. -/
structure Tried (ρ : Type) where
  closed : Bool := false
  attempts : Int → Attempt ρ

/-- No failure of a connection carries a code of the metadata category. -/
def Tried.Unmistakable (tried : Tried ρ) : Prop :=
  ∀ attempt code message, (tried.attempts attempt).outcome = .connectionFailed code message →
    errorCategory code ≠ .metadata

def RetryPolicy.requestTo (policy : RetryPolicy) (key : APIKey) (tried : Tried ρ) : Sent ρ :=
  if tried.closed then ⟨[],.error clientClosedError⟩ else policy.request key tried.attempts
/-- What one `RequestBucket` meets: the errors of the two calls of `routePhysical`, and the two requests. -/
structure BucketTried (ρ : Type) where
  closed : Bool := false
  noRouter : Bool := false
  route : Option ClientError := none
  first : Tried ρ
  reroute : Option ClientError := none
  second : Tried ρ

def RetryPolicy.requestBucket (policy : RetryPolicy) (key : APIKey) (tried : BucketTried ρ) : Sent ρ :=
  if tried.closed then ⟨[],.error clientClosedError⟩
  else if tried.noRouter then ⟨[],.error { clientClosedError with message := "fgo: client closed: client does not manage metadata" }⟩
  else
    match tried.route with
    | some err => ⟨[],.error err⟩
    | none =>
      let first := policy.requestTo key tried.first
      match first.result with
      | .ok _ => first
      | .error err =>
        -- Whatever the error is, only its class decides; a failed connection invalidates the route as well.
        if !err.metadata then first
        else
          match tried.reroute with
          | some err => ⟨first.answers,.error err⟩
          | none =>
            let second := policy.requestTo key tried.second
            ⟨first.answers ++ second.answers,second.result⟩
/-- The error of an answer that lets a safe request be sent again. -/
def Retryable (key : APIKey) (answer : RequestOutcome ρ) : Prop :=
  ∃ endpoint err, serverError key endpoint answer = .error err ∧
    (err.server.any (·.retriable) = true ∨ shouldReplaceConnection err = true)

section Bounds
variable (policy : RetryPolicy) {key : APIKey}

theorem request_answers (a : Attempt ρ) (key : APIKey) : (a.request key).answers = [] ∨
      (a.request key).answers = [a.outcome] ∧ (a.request key).result = serverError key a.address a.outcome := by
  unfold Attempt.request
  split
  · exact .inl rfl
  split
  · exact .inl rfl
  · split
    · exact .inl rfl
    · exact .inr ⟨rfl,rfl⟩

theorem request_answers_length (a : Attempt ρ) (key : APIKey) : (a.request key).answers.length ≤ 1 := by
  rcases request_answers a key with h | ⟨h,-⟩ <;> simp [h]

open RetryPolicy
theorem requestFrom_length (attempts : Int → Attempt ρ) (remaining : Nat) (attempt : Int) :
    (policy.requestFrom key attempts remaining attempt).answers.length ≤ remaining := by
  induction remaining generalizing attempt with
  | zero => simp [requestFrom]
  | succ remaining ih =>
    have hone := request_answers_length (attempts attempt) key
    have hr := ih (attempt + 1)
    rw [requestFrom]
    split
    · simp
    dsimp only
    split
    · omega
    split
    · omega
    · split
      · exact Nat.le_trans hone (by omega)
      · simp only [length_append]
        omega

theorem requestFrom_unsafe (hsa : safeToRetry key = false) (attempts : Int → Attempt ρ) (remaining : Nat)
    (attempt : Int) : (policy.requestFrom key attempts remaining attempt).answers = [] ∨
      (policy.requestFrom key attempts remaining attempt).answers = [(attempts attempt).outcome] ∧
        (policy.requestFrom key attempts remaining attempt).result =
          serverError key (attempts attempt).address (attempts attempt).outcome := by
  cases remaining with
  | zero => exact .inl rfl
  | succ remaining =>
    have hre : ∀ err, policy.shouldRetry (attempts attempt).canceled key err attempt = false := by
      intro err
      simp [shouldRetry,hsa]
    have hse := request_answers (attempts attempt) key
    rw [requestFrom]
    split
    · exact .inl rfl
    dsimp only
    split
    · exact hse
    · simp only [hre,Bool.not_false,if_true]
      exact hse

theorem requestTo_unsafe (hs : safeToRetry key = false) (tried : Tried ρ) :
    (policy.requestTo key tried).answers = [] ∨ (policy.requestTo key tried).answers = [(tried.attempts 1).outcome] ∧
        (policy.requestTo key tried).result =
          serverError key (tried.attempts 1).address (tried.attempts 1).outcome := by
  unfold requestTo
  split
  · exact .inl rfl
  · exact requestFrom_unsafe policy hs _ _ _

theorem requestFrom_retryable (attempts : Int → Attempt ρ) (remaining : Nat) (attempt : Int)
    (earlier later : List (RequestOutcome ρ)) (answer : RequestOutcome ρ)
    (h : (policy.requestFrom key attempts remaining attempt).answers = earlier ++ answer :: later) (hl : later ≠ []) :
    Retryable key answer := by
  induction remaining generalizing attempt earlier with
  | zero => simp [requestFrom] at h
  | succ remaining ih =>
    have hs : ∀ sent : List (RequestOutcome ρ), sent.length ≤ 1 → sent ≠ earlier ++ answer :: later := by
      rintro sent hse rfl
      have := length_pos_iff.mpr hl
      simp only [length_append,length_cons] at hse
      omega
    have hone := request_answers_length (attempts attempt) key
    rw [requestFrom] at h
    split at h
    · exact absurd h (hs _ (by simp))
    dsimp only at h
    split at h
    · exact absurd h (hs _ hone)
    rename_i err hre
    split at h
    · exact absurd h (hs _ hone)
    rename_i hr
    split at h
    · exact absurd h (hs _ hone)
    rcases request_answers (attempts attempt) key with hn | ⟨hso,hse⟩
    · rw [hn] at h
      exact ih _ _ h
    rw [hso] at h
    cases earlier with
    | nil =>
      simp only [singleton_append,nil_append,cons.injEq] at h
      refine ⟨(attempts attempt).address,err,?_,?_⟩
      · rw [← h.1,← hse,hre]
      · simp only [shouldRetry,Bool.not_eq_true',Bool.not_eq_false] at hr
        split at hr
        · simp at hr
        · simpa using hr
    | cons first earlier =>
      simp only [cons_append,cons.injEq] at h
      exact ih _ _ h.2

theorem serverError_metadata {endpoint : String} {answer : RequestOutcome ρ} {err : ClientError}
    (h : serverError key endpoint answer = .error err) (hm : err.metadata = true) : ∃ code message,
      (answer = .remote code message ∨ answer = .connectionFailed code message) ∧ errorCategory code = .metadata := by
  cases answer with
  | response value => simp [serverError] at h
  | failed cause =>
    obtain rfl := error.inj h
    simp at hm
  | remote code message =>
    obtain rfl := error.inj h
    exact ⟨code,message,.inl rfl,by simpa [remoteError] using hm⟩
  | connectionFailed code message =>
    obtain rfl := error.inj h
    exact ⟨code,message,.inr rfl,by simpa [remoteError] using hm⟩
/-- The two requests of `RequestBucket`: the second one follows a metadata error of the first. -/
theorem requestBucket_cases (key : APIKey) (tried : BucketTried ρ) : (policy.requestBucket key tried).answers = [] ∨
      (policy.requestBucket key tried).answers = (policy.requestTo key tried.first).answers ∨
      (∃ err, (policy.requestTo key tried.first).result = .error err ∧ err.metadata = true) ∧
        (policy.requestBucket key tried).answers =
          (policy.requestTo key tried.first).answers ++ (policy.requestTo key tried.second).answers := by
  unfold requestBucket
  split
  · exact .inl rfl
  split
  · exact .inl rfl
  split
  · exact .inl rfl
  dsimp only
  split
  · exact .inr (.inl rfl)
  rename_i err hr
  split
  · exact .inr (.inl rfl)
  rename_i hm
  split
  · exact .inr (.inl rfl)
  · exact .inr (.inr ⟨⟨err,hr,by simpa using hm⟩,rfl⟩)

private theorem requestTo_unsafe_length (hs : safeToRetry key = false) (tried : Tried ρ) :
    (policy.requestTo key tried).answers.length ≤ 1 := by
  rcases requestTo_unsafe policy hs tried with h | ⟨h,-⟩ <;> simp [h]

private theorem requestBucket_unsafe (hsa : safeToRetry key = false) (tried : BucketTried ρ) :
    (policy.requestBucket key tried).answers.length ≤ 2 ∧
      ∀ first second, (policy.requestBucket key tried).answers = [first, second] →
        (∃ err, (policy.requestTo key tried.first).result = .error err ∧ err.metadata = true) ∧
          (tried.first.Unmistakable → ∃ code message, first = .remote code message ∧ errorCategory code = .metadata) := by
  have hf := requestTo_unsafe_length policy hsa tried.first
  have hs := requestTo_unsafe_length policy hsa tried.second
  rcases requestBucket_cases policy key tried with h | h | ⟨⟨err,herr,hm⟩,h⟩
  · simp [h]
  · rw [h]
    refine ⟨by omega,fun first second htwo => ?_⟩
    rw [htwo] at hf
    simp at hf
  · rw [h]
    refine ⟨by simp only [length_append]; omega,fun first second htwo => ⟨⟨err,herr,hm⟩,fun hu => ?_⟩⟩
    rcases requestTo_unsafe policy hsa tried.first with hn | ⟨hone,hr⟩
    · rw [hn,nil_append] at htwo
      rw [htwo] at hs
      simp at hs
    · rw [hone] at htwo
      obtain ⟨code,message,heq | heq,hc⟩ := serverError_metadata (hr.symm.trans herr) hm
      · exact ⟨code,message,(cons.inj htwo).1.symm.trans heq,hc⟩
      · exact absurd hc (hu _ _ _ heq)
end Bounds
/-- A request outside the safe list goes to a connection once, and through `RequestBucket` a second time
only after a metadata error, which is the server's answer to the request unless a server fails its
connections with such an error; a safe request goes there at most `MaxAttempts` times, and again only
after a retriable server error or a connection failure. -/
theorem client_resends_only_safe_requests (policy : RetryPolicy) (key : APIKey) :
    (safeToRetry key = false →
      (∀ attempts : Int → Attempt ρ, (policy.request key attempts).answers.length ≤ 1) ∧
      ∀ tried : BucketTried ρ, (policy.requestBucket key tried).answers.length ≤ 2 ∧
        ∀ first second, (policy.requestBucket key tried).answers = [first, second] →
          (∃ err, (policy.requestTo key tried.first).result = .error err ∧ err.metadata = true) ∧
            (tried.first.Unmistakable → ¬first.Ambiguous ∧
              ∃ code message, first = .remote code message ∧ errorCategory code = .metadata)) ∧
    (safeToRetry key = true → ∀ attempts : Int → Attempt ρ,
      (policy.request key attempts).answers.length ≤ policy.maxAttempts.toNat ∧
      ∀ earlier answer later, (policy.request key attempts).answers = earlier ++ answer :: later → later ≠ [] →
        Retryable key answer) := by
  refine ⟨fun hsafe => ⟨fun attempts => ?_,fun tried => ?_⟩,fun _ attempts => ⟨?_,?_⟩⟩
  · rcases requestFrom_unsafe policy hsafe attempts policy.maxAttempts.toNat 1 with h | ⟨h,-⟩
    · simp [RetryPolicy.request,h]
    · simp [RetryPolicy.request,h]
  · obtain ⟨hlength,htwice⟩ := requestBucket_unsafe policy hsafe tried
    refine ⟨hlength,fun first second htwo => ?_⟩
    obtain ⟨hmetadata,hanswered⟩ := htwice first second htwo
    refine ⟨hmetadata,fun hfirst => ?_⟩
    obtain ⟨code,message,rfl,hcode⟩ := hanswered hfirst
    exact ⟨id,code,message,rfl,hcode⟩
  · exact requestFrom_length policy attempts _ _
  · intro earlier answer later h hlater
    exact requestFrom_retryable policy attempts _ _ earlier later answer h hlater
/-- A leader that moved: the first tablet server answers with NOT_LEADER_OR_FOLLOWER, the second one accepts. -/
example : ((RetryPolicy.mk 3 fun _ => 0).requestBucket APIKey.putKv (ρ := Nat)
    { first := { attempts := fun _ => { outcome := .remote ErrorCode.notLeaderOrFollower "" } }
      second := { attempts := fun _ => { outcome := .response 7 } } }).answers =
    [.remote ErrorCode.notLeaderOrFollower "", .response 7] := by decide

private def failedConnection : BucketTried Nat :=
  { first := { attempts := fun _ => { outcome := .connectionFailed ErrorCode.notLeaderOrFollower "" } }
    second := { attempts := fun _ => { outcome := .response 7 } } }
/-- The server fails the connection while a write waits for its response: the write is sent to the second
server although the first one may have carried it out. -/
theorem write_sent_again_unanswered : safeToRetry APIKey.putKv = false ∧ ∃ (tried : BucketTried Nat)
    (first second : RequestOutcome Nat), first.Ambiguous ∧
      ((RetryPolicy.mk 1 fun _ => 0).requestBucket APIKey.putKv tried).answers = [first, second] :=
  ⟨by decide,failedConnection,.connectionFailed ErrorCode.notLeaderOrFollower "",.response 7,trivial,by decide⟩
end FlussGo
