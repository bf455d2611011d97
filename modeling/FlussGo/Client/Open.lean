import FlussGo.Client.Auth
import FlussGo.Metadata.Response
/-!
# Opening a connection

`connectionManager.open` with the negotiation of API versions: what is written to the new connection,
and whether it is shut down again.
-/
namespace FlussGo
open List
structure PbApiVersion where
  apiKey : Int
  minVersion : Int
  maxVersion : Int
deriving DecidableEq

structure ApiVersionsReply where
  apiVersions : List PbApiVersion
  serverType : Int
deriving DecidableEq

def laterVersions : List (APIKey × Int) := [(1014, 1), (1016, 3), (1017, 1), (1024, 1), (1034, 1), (1044, 1)]
/-- `fmsg.LookupAPIKey`, by the range of its versions. -/
def lookupAPIKey (key : APIKey) : Option (Int × Int) :=
  if key < 1000 ∨ 1067 ≤ key then none else some (0, (laterVersions.lookup key).getD 0)
/-- The loop of `negotiate`. The key of the wire is cut to an `int16`. -/
def negotiatedVersions (entries : List PbApiVersion) : APIKey → Option Int :=
  entries.foldl (fun versions server =>
    let key := (BitVec.ofInt 16 server.apiKey).toInt
    match lookupAPIKey key with
    | none => versions
    | some (low, high) =>
      if server.maxVersion < low ∨ high < server.minVersion then versions
      else fun k => if k = key then some (min high server.maxVersion) else versions k) fun _ => none

def parseServerType (value : Int) : Except ClientError ServerType :=
  if value = 1 then .ok .coordinator
  else if value = 2 then .ok .tabletServer
  else .error (clientError s!"fgo: unexpected server type: {value}")

def ServerType.text : ServerType → String
  | .coordinator => "coordinator"
  | .tabletServer => "tablet server"

structure OpenConfig where
  tls : Bool := false
  authFactory : Bool := false
/-- What one `open` meets, in the order in which it is asked for. -/
structure OpenScript where
  dial : Option ClientError := none
  handshake : Option ClientError := none
  transport : Option ClientError := none
  /-- The answer to API_VERSIONS; `none` is a response of another type. -/
  versions : RequestOutcome (Option ApiVersionsReply)
  /-- What the factory returns; `none` is a nil authenticator. -/
  factory : Except ClientError (Option Authenticator) := .ok none
  server : Nat → RequestOutcome AuthenticateReply := fun _ => .response (.other "")

structure Opened where
  connected : Bool := true
  written : List APIKey := []
  exchange : List AuthEvent := []
  authenticated : Bool := false
  shut : Bool := false
  result : Outcome ClientError Negotiated

/-- The text of a `RemoteError`. -/
def remoteErrorText (code : Int) (message : String) : String :=
  if message = "" then s!"transport: remote error {code}" else s!"transport: remote error {code}: {message}"

def negotiate (address : String) : RequestOutcome (Option ApiVersionsReply) → Except ClientError (Negotiated × Int)
  | .failed err => .error { toTransportError := { err with message := "fgo: negotiate API versions: " ++ err.message } }
  | .remote code message | .connectionFailed code message =>
    .error (clientError ("fgo: negotiate API versions: " ++ remoteErrorText code message))
  | .response none => .error (clientError "fgo: negotiate API versions: unexpected response")
  | .response (some reply) =>
    let versions := negotiatedVersions reply.apiVersions
    if versions APIKey.apiVersions = none then .error (clientError "fgo: server does not support API: API_VERSIONS")
    else .ok ({ versions, address }, reply.serverType)
/-- The part of `open` after the negotiation. -/
def openAuthenticated (config : OpenConfig) (script : OpenScript) (connection : Negotiated) : Opened :=
  let written := [APIKey.apiVersions]
  if !config.authFactory then { written, result := .ok connection }
  else
    match script.factory with
    | .error err => { written, shut := true, result := .err (authenticationError err false) }
    -- The method value auth.Close of a nil interface panics before authenticate looks at auth.
    | .ok none => { written, result := .panic .nilDereference }
    | .ok (some auth) =>
      let (result, exchange) := authenticate connection auth script.server
      let written := written ++ List.replicate (callsOf AuthEvent.isSent exchange) APIKey.authenticate
      match result with
      | .error err => { written, exchange, shut := true, result := .err err }
      | .ok () => { written, exchange, authenticated := true, result := .ok connection }

def openConnection (config : OpenConfig) (script : OpenScript) (address : String) (expected : ServerType) : Opened :=
  match script.dial with
  | some err => { connected := false, result := .err { err with message := "dial: " ++ err.message } }
  | none =>
    match if config.tls then script.handshake else none with
    | some err => { shut := true, result := .err { err with message := "TLS handshake: " ++ err.message } }
    | none =>
      match script.transport with
      | some err => { shut := true, result := .err err }
      | none =>
        match negotiate address script.versions with
        | .error err => { written := [APIKey.apiVersions], shut := true, result := .err err }
        | .ok (connection, serverType) =>
          match parseServerType serverType with
          | .error err => { written := [APIKey.apiVersions], shut := true, result := .err err }
          | .ok serverType =>
            if serverType ≠ expected then
              { written := [APIKey.apiVersions], shut := true
                result := .err (clientError ("fgo: unexpected server type: " ++ address ++ " advertised " ++
                  serverType.text ++ ", need " ++ expected.text)) }
            else openAuthenticated config script connection

structure OpenLaw (config : OpenConfig) (o : Opened) : Prop where
  written : ∀ key ∈ o.written, key = APIKey.apiVersions ∨ key = APIKey.authenticate
  requests : o.written.count APIKey.authenticate ≤ 16
  exchange : callsOf AuthEvent.isSent o.exchange ≤ 16
  authenticated : o.authenticated = true → ExchangeComplete o.exchange
  returned : ∀ connection, o.result = .ok connection → o.connected = true ∧ o.shut = false ∧
    (config.authFactory = true → o.authenticated = true)
  failed : ∀ err, o.result = .err err → o.connected = true → o.shut = true ∧ o.authenticated = false

private theorem openLaw_failed {config : OpenConfig} {connected shut : Bool} {written : List APIKey} {err : ClientError}
    (hw : written = [] ∨ written = [APIKey.apiVersions]) (hs : connected = true → shut = true) :
    OpenLaw config { connected, written, shut, result := .err err } where
  written key hkey := by
    rcases hw with rfl | rfl
    · simp at hkey
    · exact .inl (by simpa using hkey)
  requests := by
    rcases hw with rfl | rfl <;> simp [APIKey.apiVersions,APIKey.authenticate]
  exchange := by simp [callsOf]
  authenticated := by simp
  returned := by simp
  failed _ _ hconnected := ⟨hs hconnected,rfl⟩

theorem openAuthenticated_law (config : OpenConfig) (script : OpenScript) (connection : Negotiated) :
    OpenLaw config (openAuthenticated config script connection) := by
  unfold openAuthenticated
  split
  next hf =>
    exact ⟨by simp,by simp [APIKey.apiVersions,APIKey.authenticate],by simp [callsOf],by simp,by simpa using hf,
      by simp⟩
  split
  · exact openLaw_failed (.inr rfl) fun _ => rfl
  · exact ⟨by simp,by simp [APIKey.apiVersions,APIKey.authenticate],by simp [callsOf],by simp,by simp,by simp⟩
  rename_i auth ha
  dsimp only
  have hs := authenticate_sent connection auth script.server
  have hw : ∀ key ∈ [APIKey.apiVersions] ++ replicate
      (callsOf AuthEvent.isSent (authenticate connection auth script.server).2) APIKey.authenticate,
      key = APIKey.apiVersions ∨ key = APIKey.authenticate := by
    intro key hkey
    rcases mem_append.mp hkey with hkey | hkey
    · exact .inl (mem_singleton.mp hkey)
    · exact .inr (eq_of_mem_replicate hkey)
  have hc : ([APIKey.apiVersions] ++ replicate
      (callsOf AuthEvent.isSent (authenticate connection auth script.server).2) APIKey.authenticate).count
      APIKey.authenticate ≤ 16 := by
    rw [count_append,count_replicate_self,show [APIKey.apiVersions].count APIKey.authenticate = 0 by decide]
    omega
  split
  · exact ⟨hw,hc,hs,by simp,by simp,by simp⟩
  next hok => exact ⟨hw,hc,hs,fun _ => authenticate_ok hok,by simp,by simp⟩

theorem openConnection_law (config : OpenConfig) (script : OpenScript) (address : String) (expected : ServerType) :
    OpenLaw config (openConnection config script address expected) := by
  unfold openConnection
  split
  · exact openLaw_failed (.inl rfl) (by simp)
  split
  · exact openLaw_failed (.inl rfl) fun _ => rfl
  split
  · exact openLaw_failed (.inl rfl) fun _ => rfl
  split
  · exact openLaw_failed (.inr rfl) fun _ => rfl
  split
  · exact openLaw_failed (.inr rfl) fun _ => rfl
  split
  · exact openLaw_failed (.inr rfl) fun _ => rfl
  · exact openAuthenticated_law config script _
end FlussGo
