import FlussGo.Client.Error
import FlussGo.Lib.Bytes
import Mathlib.Tactic.Common
/-!
# The authentication exchange

`client_auth.go`: the challenge loop between an authenticator and a server, neither of which is trusted. Both are
given by what they return at each of their calls.
-/
namespace FlussGo
open Prod
/-- An authenticator during one exchange: what its methods return at their calls, counted from 0. -/
structure Authenticator where
  protocol : Nat → String
  hasInitialResponse : Bool
  authenticate : Nat → Except ClientError (Option Bytes)
  complete : Nat → Bool
/-- The message of an answer to AUTHENTICATE. -/
inductive AuthenticateReply where
  | authenticate (challenge : Option Bytes)
  | other (type : String)
deriving DecidableEq

inductive AuthEvent where
  /-- `Authenticate` was called with a challenge. -/
  | produced (challenge : Option Bytes) (token : Except ClientError (Option Bytes))
  /-- An AUTHENTICATE request was handed to the connection, and how it was answered. -/
  | sent (protocol : String) (token : Bytes) (answer : RequestOutcome AuthenticateReply)
  /-- `Complete` was called. -/
  | completed (complete : Bool)

namespace AuthEvent
def isProduced : AuthEvent → Bool
  | .produced _ _ => true
  | _ => false

def isSent : AuthEvent → Bool
  | .sent _ _ _ => true
  | _ => false

def isCompleted : AuthEvent → Bool
  | .completed _ => true
  | _ => false

def hasToken : AuthEvent → Bool
  | .produced _ (.ok (some _)) => true
  | _ => false
end AuthEvent
/-- The state of a connection that the exchange reads. -/
structure Negotiated where
  closed : Bool := false
  versions : APIKey → Option Int
  address : String
/-- The versions of AUTHENTICATE that the client knows. -/
def authenticateVersions : Int × Int := (0, 0)

section Exchange
variable (connection : Negotiated) (auth : Authenticator) (server : Nat → RequestOutcome AuthenticateReply)
/-- The calls of one method of the authenticator or the server so far. -/
def callsOf (kind : AuthEvent → Bool) (events : List AuthEvent) : Nat := events.countP kind

def Authenticator.respond (challenge : Option Bytes) (events : List AuthEvent) :
    Except ClientError (Option Bytes) × List AuthEvent :=
  let token := auth.authenticate (callsOf AuthEvent.isProduced events)
  (token, events ++ [.produced challenge token])

def Authenticator.isComplete (events : List AuthEvent) : Bool × List AuthEvent :=
  let complete := auth.complete (callsOf AuthEvent.isCompleted events)
  (complete, events ++ [.completed complete])

def initialAuthenticationToken (events : List AuthEvent) : Except ClientError (Option Bytes) × List AuthEvent :=
  if !auth.hasInitialResponse then (.ok none, events)
  else
    match auth.respond none events with
    | (.error err, events) => (.error (authenticationError err false), events)
    | (.ok none, events) => (.error (authenticationError (clientError "initial response is missing") false), events)
    | (.ok (some token), events) => (.ok (some token), events)
/-- `authenticateRequest`, with its error classified by `serverError`. -/
def authenticateRequest (protocol : String) (token : Option Bytes) (events : List AuthEvent) :
    Except ClientError (Option Bytes) × List AuthEvent :=
  if connection.closed then (.error clientClosedError, events)
  else
    match connection.versions APIKey.authenticate with
    | none => (.error (clientError "fgo: server does not support API: AUTHENTICATE"), events)
    | some version =>
      if version < authenticateVersions.1 ∨ authenticateVersions.2 < version then
        (.error (clientError s!"fmsg: unsupported API version: AUTHENTICATE supports 0 through 0, got {version}"), events)
      else
        let answer := server (callsOf AuthEvent.isSent events)
        let events := events ++ [.sent protocol (token.getD []) answer]
        match serverError APIKey.authenticate connection.address answer with
        | .error err => (.error err, events)
        | .ok (.other type) => (.error (clientError s!"unexpected authentication response {type}"), events)
        | .ok (.authenticate challenge) => (.ok challenge, events)
/-- The challenge of the server, or that the exchange is complete. -/
def authenticationChallenge (token : Option Bytes) (events : List AuthEvent) :
    Except ClientError (Option Bytes) × List AuthEvent :=
  match authenticateRequest connection server (auth.protocol (callsOf AuthEvent.isSent events + 1)) token events with
  | (.error err, events) => (.error (authenticationError err (isRetriableAuthenticationError err)), events)
  | (.ok challenge, events) =>
    match auth.isComplete events with
    | (true, events) => (.ok none, events)
    | (false, events) =>
      match challenge with
      | some challenge => (.ok (some challenge), events)
      | none =>
        (.error (authenticationError (clientError "server completed exchange before authenticator completed") false),
          events)
/-- The next token of the authenticator, or that the exchange is complete. -/
def authenticationResponseToken (challenge : Bytes) (events : List AuthEvent) :
    Except ClientError (Option Bytes) × List AuthEvent :=
  match auth.respond (some challenge) events with
  | (.error err, events) => (.error (authenticationError err false), events)
  | (.ok (some token), events) => (.ok (some token), events)
  | (.ok none, events) =>
    match auth.isComplete events with
    | (true, events) => (.ok none, events)
    | (false, events) =>
      (.error (authenticationError (clientError "authenticator returned no response before completion") false), events)
/-- The challenge loop, with the number of steps that are left. -/
def authenticateFrom : Nat → Option Bytes → List AuthEvent → Except ClientError Unit × List AuthEvent
  | 0, _, events =>
    (.error (authenticationError (clientError "authentication exchange exceeded 16 steps") false), events)
  | steps + 1, token, events =>
    match authenticationChallenge connection auth server token events with
    | (.error err, events) => (.error err, events)
    | (.ok none, events) => (.ok (), events)
    | (.ok (some challenge), events) =>
      match authenticationResponseToken auth challenge events with
      | (.error err, events) => (.error err, events)
      | (.ok none, events) => (.ok (), events)
      | (.ok (some token), events) => authenticateFrom steps (some token) events

def authenticate : Except ClientError Unit × List AuthEvent :=
  if auth.protocol 0 = "" then (.error (authenticationError (clientError "invalid authenticator") false), [])
  else
    match initialAuthenticationToken auth [] with
    | (.error err, events) => (.error err, events)
    | (.ok token, events) => authenticateFrom connection auth server 16 token events
end Exchange
/-- The exchange ends with an answer without error to the latest token, and with the authenticator's
report that it is complete. -/
def ExchangeComplete (events : List AuthEvent) : Prop :=
  ∃ earlier protocol token challenge later,
    events = earlier ++ .sent protocol token (.response (.authenticate challenge)) :: later ++ [.completed true] ∧
      ∀ e ∈ later, e.isSent = false ∧ e.hasToken = false

section Steps
variable {connection : Negotiated} {auth : Authenticator} {server : Nat → RequestOutcome AuthenticateReply}
  {events events' : List AuthEvent}

open AuthEvent
theorem authenticateRequest_ok {protocol : String} {token challenge : Option Bytes}
    (h : authenticateRequest connection server protocol token events = (.ok challenge, events')) :
    events' = events ++ [.sent protocol (token.getD []) (.response (.authenticate challenge))] := by
  unfold authenticateRequest at h
  split at h
  · simp at h
  split at h
  · simp at h
  split at h
  · simp at h
  dsimp only at h
  split at h
  · simp at h
  · simp at h
  rename_i challenge' ha
  cases h
  cases hr : server (callsOf isSent events) with
  | response reply =>
    rw [hr] at ha
    obtain rfl := Except.ok.inj ha
    rfl
  | remote | connectionFailed | failed => simp [hr,serverError] at ha
/-- The events that a part of the exchange adds, with a limit on its requests. -/
def Adds (limit : Nat) (events events' : List AuthEvent) : Prop :=
  ∃ tail, events' = events ++ tail ∧ callsOf AuthEvent.isSent tail ≤ limit

theorem Adds.refl (limit : Nat) (events : List AuthEvent) : Adds limit events events :=
  ⟨[],by simp,by simp [callsOf]⟩

theorem Adds.trans {m n : Nat} {events'' : List AuthEvent} (h : Adds m events events') (h' : Adds n events' events'') :
    Adds (m + n) events events'' := by
  obtain ⟨tail,rfl,hm⟩ := h
  obtain ⟨tail',rfl,hn⟩ := h'
  refine ⟨tail ++ tail',by simp,?_⟩
  simp only [callsOf,List.countP_append] at hm hn ⊢
  omega

theorem Adds.mono {m n : Nat} (h : Adds m events events') (hmn : m ≤ n) : Adds n events events' := by
  obtain ⟨tail,ht,hm⟩ := h
  exact ⟨tail,ht,hm.trans hmn⟩

private theorem adds_one {e : AuthEvent} (he : e.isSent = false) : Adds 0 events (events ++ [e]) :=
  ⟨[e],rfl,by simp [callsOf,he]⟩

theorem authenticateRequest_adds (connection : Negotiated) (server : Nat → RequestOutcome AuthenticateReply)
    (protocol : String) (token : Option Bytes) (events : List AuthEvent) :
    Adds 1 events (authenticateRequest connection server protocol token events).2 := by
  unfold authenticateRequest
  split
  · exact .refl _ _
  split
  · exact .refl _ _
  split
  · exact .refl _ _
  refine ⟨[.sent protocol (token.getD []) (server (callsOf isSent events))],?_,by simp [callsOf,isSent]⟩
  dsimp only
  split <;> rfl

theorem authenticationChallenge_adds (connection : Negotiated) (auth : Authenticator)
    (server : Nat → RequestOutcome AuthenticateReply) (token : Option Bytes) (events : List AuthEvent) :
    Adds 1 events (authenticationChallenge connection auth server token events).2 := by
  have hr := authenticateRequest_adds connection server (auth.protocol (callsOf isSent events + 1))
    token events
  unfold authenticationChallenge
  split
  next err events' heq =>
    rw [heq] at hr
    exact hr
  rename_i challenge events' heq
  rw [heq] at hr
  have hc : Adds 1 events (auth.isComplete events').2 := hr.trans (adds_one rfl)
  split
  next heq =>
    rw [heq] at hc
    exact hc
  next heq =>
    rw [heq] at hc
    split <;> exact hc

theorem authenticationResponseToken_adds (auth : Authenticator) (challenge : Bytes) (events : List AuthEvent) :
    Adds 0 events (authenticationResponseToken auth challenge events).2 := by
  have hr : Adds 0 events (auth.respond (some challenge) events).2 := adds_one rfl
  unfold authenticationResponseToken
  split
  next heq =>
    rw [heq] at hr
    exact hr
  next heq =>
    rw [heq] at hr
    exact hr
  rename_i events' heq
  rw [heq] at hr
  have hc : Adds 0 events (auth.isComplete events').2 := hr.trans (adds_one rfl)
  split
  next heq =>
    rw [heq] at hc
    exact hc
  next heq =>
    rw [heq] at hc
    exact hc

theorem authenticateFrom_adds (steps : Nat) (token : Option Bytes) (events : List AuthEvent) :
    Adds steps events (authenticateFrom connection auth server steps token events).2 := by
  induction steps generalizing token events with
  | zero => exact .refl _ _
  | succ steps ih =>
    have hc := authenticationChallenge_adds connection auth server token events
    rw [authenticateFrom]
    split
    next heq =>
      rw [heq] at hc
      exact hc.mono (by omega)
    next heq =>
      rw [heq] at hc
      exact hc.mono (by omega)
    rename_i challenge events' heq
    rw [heq] at hc
    have hr := hc.trans (authenticationResponseToken_adds auth challenge events')
    split
    next heq =>
      rw [heq] at hr
      exact hr.mono (by omega)
    next heq =>
      rw [heq] at hr
      exact hr.mono (by omega)
    · rename_i token events'' heq
      rw [heq] at hr
      exact (hr.trans (ih (some token) events'')).mono (by omega)

theorem authenticationChallenge_ok {token challenge : Option Bytes}
    (h : authenticationChallenge connection auth server token events = (.ok challenge, events')) :
    ∃ reply, events' = events ++ [.sent (auth.protocol (callsOf isSent events + 1)) (token.getD [])
      (.response (.authenticate reply)), .completed challenge.isNone] := by
  unfold authenticationChallenge at h
  split at h
  · simp at h
  rename_i reply mid hr
  obtain rfl := authenticateRequest_ok hr
  split at h
  next mid' hc =>
    cases h
    simp only [Authenticator.isComplete,mk.injEq] at hc
    obtain ⟨hyes,rfl⟩ := hc
    exact ⟨reply,by simp [hyes]⟩
  next mid' hc =>
    simp only [Authenticator.isComplete,mk.injEq] at hc
    obtain ⟨hno,rfl⟩ := hc
    split at h
    next challenge' =>
      cases h
      exact ⟨some challenge',by simp [hno]⟩
    · simp at h

theorem authenticationResponseToken_none {challenge : Bytes}
    (h : authenticationResponseToken auth challenge events = (.ok none, events')) :
    events' = events ++ [.produced (some challenge) (.ok none), .completed true] := by
  unfold authenticationResponseToken at h
  split at h
  · simp at h
  · simp at h
  rename_i mid hr
  simp only [Authenticator.respond,mk.injEq] at hr
  obtain ⟨hn,rfl⟩ := hr
  split at h
  next mid' hc =>
    simp only [Authenticator.isComplete,mk.injEq] at hc
    obtain ⟨hyes,rfl⟩ := hc
    simp only [mk.injEq,true_and] at h
    subst h
    rw [hyes,hn]
    simp
  · simp at h
/-- Both ways out of the loop with success follow an answer to the latest token. -/
theorem authenticateFrom_ok (steps : Nat) (token : Option Bytes) (events : List AuthEvent)
    (h : authenticateFrom connection auth server steps token events = (.ok (), events')) : ExchangeComplete events' := by
  induction steps generalizing token events with
  | zero => simp [authenticateFrom] at h
  | succ steps ih =>
    rw [authenticateFrom] at h
    split at h
    · simp at h
    next mid hc =>
      simp only [mk.injEq,true_and] at h
      subst h
      obtain ⟨reply,rfl⟩ := authenticationChallenge_ok hc
      exact ⟨events,auth.protocol (callsOf isSent events + 1),token.getD [],reply,[],by simp,by simp⟩
    next challenge mid hc =>
      obtain ⟨reply,rfl⟩ := authenticationChallenge_ok hc
      split at h
      · simp at h
      next mid' hr =>
        simp only [mk.injEq,true_and] at h
        subst h
        obtain rfl := authenticationResponseToken_none hr
        refine ⟨events,auth.protocol (callsOf isSent events + 1),token.getD [],reply,
          [.completed false, .produced (some challenge) (.ok none)],by simp,?_⟩
        simp [isSent,hasToken]
      · exact ih _ _ h

theorem authenticate_ok (h : (authenticate connection auth server).1 = .ok ()) :
    ExchangeComplete (authenticate connection auth server).2 := by
  unfold authenticate at h ⊢
  split at h
  · simp at h
  rename_i hp
  rw [if_neg hp]
  split at h
  · simp at h
  · exact authenticateFrom_ok 16 _ _ (Prod.ext h rfl)

theorem authenticate_sent (connection : Negotiated) (auth : Authenticator)
    (server : Nat → RequestOutcome AuthenticateReply) :
    callsOf isSent (authenticate connection auth server).2 ≤ 16 := by
  have hl : Adds 16 [] (authenticate connection auth server).2 := by
    unfold authenticate
    split
    · exact .refl _ _
    have hi : Adds 0 [] (initialAuthenticationToken auth []).2 := by
      have hr : Adds 0 [] (auth.respond none []).2 := adds_one rfl
      unfold initialAuthenticationToken
      split
      · exact .refl _ _
      · split <;> rename_i heq <;> rw [heq] at hr <;> exact hr
    split
    next heq =>
      rw [heq] at hi
      exact hi.mono (by omega)
    next token events heq =>
      rw [heq] at hi
      exact (hi.trans (authenticateFrom_adds 16 token events)).mono (by omega)
  obtain ⟨tail,ht,hs⟩ := hl
  rwa [ht]
end Steps
end FlussGo
