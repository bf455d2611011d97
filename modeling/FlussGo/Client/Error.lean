import FlussGo.Go.Basic
/-!
# Errors of requests

`errors.go` and the parts of `fmsg` it uses: the classification of error codes, and what `errors.Is` and
`errors.As` can find in an error.
-/
namespace FlussGo
/-- `fmsg.APIKey`. -/
abbrev APIKey := Int

namespace APIKey
def apiVersions : APIKey := 1000
def getTableInfo : APIKey := 1007
def listTables : APIKey := 1008
def listDatabases : APIKey := 1003
def databaseExists : APIKey := 1004
def tableExists : APIKey := 1010
def getMetadata : APIKey := 1012
def getTableSchema : APIKey := 1011
def listPartitionInfos : APIKey := 1009
def getTableStats : APIKey := 1059
def listOffsets : APIKey := 1021
def putKv : APIKey := 1016
def authenticate : APIKey := 1038
end APIKey
/-- `fmsg.ErrorCode`. -/
abbrev ErrorCode := Int

namespace ErrorCode
def networkException : ErrorCode := 1
def logStorageException : ErrorCode := 10
def kvStorageException : ErrorCode := 11
def notLeaderOrFollower : ErrorCode := 12
def recordTooLargeException : ErrorCode := 13
def corruptRecordException : ErrorCode := 14
def unknownTableOrBucketException : ErrorCode := 21
def invalidCoordinatorException : ErrorCode := 23
def fencedLeaderEpochException : ErrorCode := 24
def requestTimeOut : ErrorCode := 25
def storageException : ErrorCode := 26
def operationNotAttemptedException : ErrorCode := 27
def notEnoughReplicasAfterAppendException : ErrorCode := 28
def notEnoughReplicasException : ErrorCode := 29
def securityTokenException : ErrorCode := 30
def outOfOrderSequenceException : ErrorCode := 31
def duplicateSequenceException : ErrorCode := 32
def unknownWriterIdException : ErrorCode := 33
def partitionNotExists : ErrorCode := 36
def leaderNotAvailableException : ErrorCode := 44
def authenticateException : ErrorCode := 46
def securityDisabledException : ErrorCode := 47
def authorizationException : ErrorCode := 48
def retriableAuthenticateException : ErrorCode := 51
def ineligibleReplicaException : ErrorCode := 55
def serverNotExistException : ErrorCode := 58
def notCoordinatorLeaderException : ErrorCode := 65
def diskWriteLocked : ErrorCode := 70
def storageBackpressureException : ErrorCode := 72
def invalidBucketRouting : ErrorCode := 74
end ErrorCode
/-- The names of the known error codes, from -1 on. -/
def errorNames : List String :=
  ["UNKNOWN_SERVER_ERROR", "NONE", "NETWORK_EXCEPTION", "UNSUPPORTED_VERSION", "CORRUPT_MESSAGE",
    "DATABASE_NOT_EXIST", "DATABASE_NOT_EMPTY", "DATABASE_ALREADY_EXIST", "TABLE_NOT_EXIST", "TABLE_ALREADY_EXIST",
    "SCHEMA_NOT_EXIST", "LOG_STORAGE_EXCEPTION", "KV_STORAGE_EXCEPTION", "NOT_LEADER_OR_FOLLOWER",
    "RECORD_TOO_LARGE_EXCEPTION", "CORRUPT_RECORD_EXCEPTION", "INVALID_TABLE_EXCEPTION",
    "INVALID_DATABASE_EXCEPTION", "INVALID_REPLICATION_FACTOR", "INVALID_REQUIRED_ACKS",
    "LOG_OFFSET_OUT_OF_RANGE_EXCEPTION", "NON_PRIMARY_KEY_TABLE_EXCEPTION", "UNKNOWN_TABLE_OR_BUCKET_EXCEPTION",
    "INVALID_UPDATE_VERSION_EXCEPTION", "INVALID_COORDINATOR_EXCEPTION", "FENCED_LEADER_EPOCH_EXCEPTION",
    "REQUEST_TIME_OUT", "STORAGE_EXCEPTION", "OPERATION_NOT_ATTEMPTED_EXCEPTION",
    "NOT_ENOUGH_REPLICAS_AFTER_APPEND_EXCEPTION", "NOT_ENOUGH_REPLICAS_EXCEPTION", "SECURITY_TOKEN_EXCEPTION",
    "OUT_OF_ORDER_SEQUENCE_EXCEPTION", "DUPLICATE_SEQUENCE_EXCEPTION", "UNKNOWN_WRITER_ID_EXCEPTION",
    "INVALID_COLUMN_PROJECTION", "INVALID_TARGET_COLUMN", "PARTITION_NOT_EXISTS", "TABLE_NOT_PARTITIONED_EXCEPTION",
    "INVALID_TIMESTAMP_EXCEPTION", "INVALID_CONFIG_EXCEPTION", "LAKE_STORAGE_NOT_CONFIGURED_EXCEPTION",
    "KV_SNAPSHOT_NOT_EXIST", "PARTITION_ALREADY_EXISTS", "PARTITION_SPEC_INVALID_EXCEPTION",
    "LEADER_NOT_AVAILABLE_EXCEPTION", "PARTITION_MAX_NUM_EXCEPTION", "AUTHENTICATE_EXCEPTION",
    "SECURITY_DISABLED_EXCEPTION", "AUTHORIZATION_EXCEPTION", "BUCKET_MAX_NUM_EXCEPTION",
    "FENCED_TIERING_EPOCH_EXCEPTION", "RETRIABLE_AUTHENTICATE_EXCEPTION", "INVALID_SERVER_RACK_INFO_EXCEPTION",
    "LAKE_SNAPSHOT_NOT_EXIST", "LAKE_TABLE_ALREADY_EXIST", "INELIGIBLE_REPLICA_EXCEPTION",
    "INVALID_ALTER_TABLE_EXCEPTION", "DELETION_DISABLED_EXCEPTION", "SERVER_NOT_EXIST_EXCEPTION",
    "SEVER_TAG_ALREADY_EXIST_EXCEPTION", "SEVER_TAG_NOT_EXIST_EXCEPTION", "REBALANCE_FAILURE_EXCEPTION",
    "NO_REBALANCE_IN_PROGRESS_EXCEPTION", "INVALID_PRODUCER_ID_EXCEPTION", "CONFIG_EXCEPTION",
    "NOT_COORDINATOR_LEADER_EXCEPTION", "SCANNER_EXPIRED", "UNKNOWN_SCANNER_ID", "INVALID_SCAN_REQUEST",
    "TOO_MANY_SCANNERS", "DISK_WRITE_LOCKED", "INSUFFICIENT_KV_LEADER_REPLICA_CAPACITY",
    "STORAGE_BACKPRESSURE_EXCEPTION", "HISTORICAL_PARTITION_THROTTLED", "INVALID_BUCKET_ROUTING"]
/-- `fmsg.LookupErrorCode`, by the name of the code. -/
def lookupErrorCode (code : ErrorCode) : Option String := if code < -1 then none else errorNames[(code + 1).toNat]?
/-- The error variables that a `ServerError` can match besides `ErrServerFailure`. -/
inductive ErrorCategory where
  | authentication
  | authorization
  | unknownPartition
  | metadata
  | timeout
  | storage
  | sequence
  | record
  | validation
deriving DecidableEq

def errorCategory (code : ErrorCode) : ErrorCategory :=
  if code ∈ [ErrorCode.authenticateException, ErrorCode.retriableAuthenticateException] then .authentication
  else if code ∈ [ErrorCode.authorizationException, ErrorCode.securityDisabledException,
      ErrorCode.securityTokenException] then .authorization
  else if code ∈ [ErrorCode.partitionNotExists] then .unknownPartition
  else if code ∈ [ErrorCode.notLeaderOrFollower, ErrorCode.unknownTableOrBucketException,
      ErrorCode.invalidCoordinatorException, ErrorCode.fencedLeaderEpochException,
      ErrorCode.leaderNotAvailableException, ErrorCode.serverNotExistException,
      ErrorCode.notCoordinatorLeaderException, ErrorCode.invalidBucketRouting] then .metadata
  else if code ∈ [ErrorCode.requestTimeOut, ErrorCode.networkException] then .timeout
  else if code ∈ [ErrorCode.logStorageException, ErrorCode.kvStorageException, ErrorCode.storageException,
      ErrorCode.diskWriteLocked, ErrorCode.storageBackpressureException] then .storage
  else if code ∈ [ErrorCode.outOfOrderSequenceException, ErrorCode.duplicateSequenceException,
      ErrorCode.unknownWriterIdException] then .sequence
  else if code ∈ [ErrorCode.recordTooLargeException, ErrorCode.corruptRecordException] then .record
  else .validation

def retriableErrorCode (code : ErrorCode) : Bool :=
  [ErrorCode.networkException, ErrorCode.notLeaderOrFollower, ErrorCode.invalidCoordinatorException,
    ErrorCode.requestTimeOut, ErrorCode.operationNotAttemptedException,
    ErrorCode.notEnoughReplicasAfterAppendException, ErrorCode.notEnoughReplicasException,
    ErrorCode.leaderNotAvailableException, ErrorCode.retriableAuthenticateException,
    ErrorCode.ineligibleReplicaException, ErrorCode.notCoordinatorLeaderException,
    ErrorCode.invalidBucketRouting, ErrorCode.diskWriteLocked, ErrorCode.storageBackpressureException].contains code

structure ServerError where
  code : ErrorCode
  name : String
  message : String
  api : APIKey
  endpoint : String
  retriable : Bool
  category : ErrorCategory
deriving DecidableEq

def ServerError.text (e : ServerError) : String :=
  let location := if e.endpoint = "" then "" else " from " ++ e.endpoint
  if e.message = "" then "fgo: server failure: " ++ e.name ++ location
  else "fgo: server failure: " ++ e.name ++ location ++ ": " ++ e.message
/-- An error of the transport that is not the server's answer. The transport knows none of the
client's own error variables. -/
structure TransportError where
  message : String
  closed : Bool := false
  eof : Bool := false
  closedPipe : Bool := false
  canceled : Bool := false
  deadlineExceeded : Bool := false
  /-- `errors.As` finds a `net.Error`. -/
  network : Bool := false
deriving DecidableEq
/-- An error value as the client sees it: what `errors.Is` finds of the variables it tests for, and
what `errors.As` finds. -/
structure ClientError extends TransportError where
  /-- `ErrClosed` of the client; `closed` is the one of the transport. -/
  clientClosed : Bool := false
  metadata : Bool := false
  server : Option ServerError := none
  /-- `Retriable` of an `AuthenticationError`. -/
  authentication : Option Bool := none
deriving DecidableEq

def clientError (message : String) : ClientError := { message }

def clientClosedError : ClientError := { message := Sentinel.closed.text, clientClosed := true }
/-- How the connection answers a request that was handed to it. -/
inductive RequestOutcome (ρ : Type) where
  | response (value : ρ)
  /-- The error response to this request. -/
  | remote (code : ErrorCode) (message : String)
  /-- The server failed the connection with this error, and with it every request that had no response. -/
  | connectionFailed (code : ErrorCode) (message : String)
  | failed (err : TransportError)
deriving DecidableEq
/-- The server has not answered the request, and may have carried it out. -/
def RequestOutcome.Ambiguous {ρ : Type} : RequestOutcome ρ → Prop
  | .response _ => False
  | .remote _ _ => False
  | .connectionFailed _ _ => True
  | .failed _ => True
/-- `serverError` for a `RemoteError`, whether it answers the request or is why the connection failed. -/
def remoteError (code : ErrorCode) (message : String) (api : APIKey) (endpoint : String) : ClientError :=
  let known := lookupErrorCode code
  let server : ServerError :=
    { code, name := known.getD "UNKNOWN_FUTURE_ERROR", message, api, endpoint
      retriable := known.isSome && retriableErrorCode code
      category := errorCategory code }
  { message := server.text, metadata := server.category == .metadata, server := some server }

def serverError {ρ : Type} (api : APIKey) (endpoint : String) : RequestOutcome ρ → Except ClientError ρ
  | .response value => .ok value
  | .remote code message | .connectionFailed code message => .error (remoteError code message api endpoint)
  | .failed err => .error { toTransportError := err }

def authenticationError (err : ClientError) (retriable : Bool) : ClientError :=
  { err with
    message := if retriable then "fgo: authentication failed (retriable)" else "fgo: authentication failed"
    authentication := some retriable }

def isRetriableAuthenticationError (err : ClientError) : Bool :=
  match err.authentication with
  | some retriable => retriable
  | none => err.server.any fun server => server.retriable && server.code == ErrorCode.retriableAuthenticateException

def shouldReplaceConnection (err : ClientError) : Bool :=
  if err.clientClosed || err.closed || err.eof || err.closedPipe then true
  else if err.canceled || err.deadlineExceeded then false
  else err.network
end FlussGo
