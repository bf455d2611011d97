import FlussGo.Lib.Bytes
import FlussGo.Lib.Run
import Mathlib.Logic.Function.Basic
/-!
# The transport connection

`connection.go`: concurrent `Request` calls, the read loop, `Close`, and the socket between them. A
step is one critical section or one operation on a channel, a context or the socket. Each call has its own
context and its own result channel. The fields after `closers` are history that no step reads.
-/
namespace FlussGo
open Function Prod
namespace Transport
variable {n : Nat}

def requestHeaderSize : Nat := 8
def responseHeaderSize : Nat := 5

inductive ContextError where
  | canceled
  | deadlineExceeded
deriving DecidableEq

inductive Error where
  | nilRequest
  | context (cause : ContextError)
  | marshal (text : String)
  | frameTooLarge (size : Nat)
  | closed
  | exhausted
  | setDeadline (text : String)
  | clearDeadline (text : String)
  | shortWrite
  /-- An error of the socket, which may wrap a context error. -/
  | socket (cause : Option ContextError) (text : String)
  | interrupted (cause : ContextError)
  /-- `errors.Join` of a write error, or of nil, and the error of clearing the deadline. -/
  | joined (write clear : Error)
  | joinedNil (clear : Error)
  | writeFailed (cause : Error)
  | discarded (cause terminal : Error)
  | malformed (text : String)
  | remote (code : Int) (message : String)
  | unmarshal (text : String)
deriving DecidableEq

def Error.isContext : Error → Bool
  | .context _ => true
  | .interrupted _ => true
  | .socket (some _) _ => true
  | _ => false

structure Request where
  isNil : Bool := false
  apiKey : BitVec 16
  version : BitVec 16
  marshal : Except String Bytes
  /-- `NewResponse` returns a value, and the error of its `Unmarshal`. -/
  hasResponse : Bool := true
  unmarshal : Bytes → Option String := fun _ => none
  hasDeadline : Bool := false

def Request.body (r : Request) : Bytes :=
  match r.marshal with
  | .ok body => body
  | .error _ => []

def Request.frame (r : Request) (id : Int) : Bytes :=
  bigWord 4 (requestHeaderSize + r.body.length) ++ bigWord 2 r.apiKey.toNat ++ bigWord 2 r.version.toNat ++
    bigWord 4 (BitVec.ofInt 32 id).toNat ++ r.body

inductive FrameReply where
  | body (bytes : Bytes)
  | remote (code : Int) (message : String)
deriving DecidableEq
/-- What a result channel carries: the reply of the frame with the given number, or the error of `fail`. -/
inductive Reply where
  | frame (number : Nat) (reply : FrameReply)
  | terminal (err : Error)
deriving DecidableEq

inductive Result where
  | response (number : Nat) (bytes : Bytes)
  | remote (number : Nat) (code : Int) (message : String)
  | undecodable (number : Nat) (err : Error)
  | invalid (err : Error)
  | context (cause : ContextError)
  /-- No ID was free beside the pending ones. -/
  | exhausted (taken : List Int)
  | write (err : Error)
  | terminal (err : Error)
deriving DecidableEq

def Result.err : Result → Option Error
  | .response _ _ => none
  | .remote _ code message => some (.remote code message)
  | .undecodable _ err => some err
  | .invalid err => some err
  | .context cause => some (.context cause)
  | .exhausted _ => some .exhausted
  | .write err => some err
  | .terminal err => some err
/-- Where a call of `fail` is: before its critical section, before it closes the socket, and in the
loop over the channels it took. -/
inductive FailStage where
  | start (err : Error)
  | close (err : Error) (taken : List Nat)
  | complete (err : Error) (taken : List Nat)
  | ended
deriving DecidableEq

inductive Phase where
  | absent
  | waiting
  | slotted
  | checked
  | registered (id : Int)
  | locked (id : Int)
  | writing (id : Int) (rest : Bytes) (total : Nat)
  | finishing (id : Int) (total : Nat) (err : Option Error)
  | discarding (id : Int) (err : Error)
  | failing (id : Int) (err : Error) (stage : FailStage)
  | awaiting (id : Int)
  | leaving (id : Int) (result : Result)
  | releasing (result : Result)
  | returned (result : Result)
deriving DecidableEq

inductive Reader where
  | reading
  | delivering (number : Nat) (id : Int) (reply : FrameReply)
  | completing (number call : Nat) (reply : FrameReply)
  | failing (stage : FailStage)
deriving DecidableEq
/-- A frame that `writeRequest` has left: how many of its bytes the socket accepted. -/
structure Write where
  call : Nat
  id : Int
  total : Nat
deriving DecidableEq

structure State where
  calls : Nat → Phase := fun _ => .absent
  contexts : Nat → Option ContextError := fun _ => none
  slots : List Nat := []
  nextID : Int := 0
  pending : List (Int × Nat) := []
  channels : Nat → Option Reply := fun _ => none
  closeErr : Option Error := none
  writeMu : Option Nat := none
  socketOpen : Bool := true
  inbound : Bytes := []
  reader : Reader := .reading
  closers : List FailStage := []
  accepted : Bytes := []
  frames : List Bytes := []
  ids : Nat → Option Int := fun _ => none
  writes : List Write := []
  deliveries : List (Nat × Nat) := []
  late : List Nat := []
/-- `register`'s step to the next ID: `int32` numbers wrap to negative ones, which are skipped. -/
def advanceID (id : Int) : Int := if id = 2147483647 then 1 else id + 1

def freeID (taken : List Int) : Nat → Int → Option Int
  | 0, _ => none
  | n + 1, id => if taken.contains (advanceID id) then freeID taken n (advanceID id) else some (advanceID id)
/-- The number of iterations of that loop, `int(^uint32(0))`. -/
def idAttempts : Nat := 4294967295

@[irreducible] def spentID (id : Int) : Int := advanceID^[idAttempts] id
/-- `complete`: a full channel keeps its value. -/
def completeChannel (channels : Nat → Option Reply) (call : Nat) (reply : Reply) : Nat → Option Reply :=
  Function.update channels call (some ((channels call).getD reply))

namespace State
def goto (s : State) (n : Nat) (p : Phase) : State := { s with calls := Function.update s.calls n p }

def fail (s : State) : FailStage → State × FailStage
  | .start err =>
    match s.closeErr with
    | some _ => (s, .ended)
    | none => ({ s with closeErr := some err, pending := [] }, .close err (s.pending.map snd))
  | .close err taken => ({ s with socketOpen := false }, .complete err taken)
  | .complete err (call :: taken) =>
    ({ s with channels := completeChannel s.channels call (.terminal err) }, .complete err taken)
  | .complete _ [] => (s, .ended)
  | .ended => (s, .ended)
end State

@[simp] theorem goto_calls_self (s : State) (n : Nat) (p : Phase) : (s.goto n p).calls n = p := by
  simp [State.goto]

theorem goto_calls_ne {m : Nat} (h : m ≠ n) (s : State) (p : Phase) : (s.goto n p).calls m = s.calls m := by
  simp [State.goto,h]

structure FailFrame (s s' : State) : Prop where
  calls : s'.calls = s.calls
  contexts : s'.contexts = s.contexts
  slots : s'.slots = s.slots
  nextID : s'.nextID = s.nextID
  writeMu : s'.writeMu = s.writeMu
  reader : s'.reader = s.reader
  closers : s'.closers = s.closers
  accepted : s'.accepted = s.accepted
  frames : s'.frames = s.frames
  ids : s'.ids = s.ids
  writes : s'.writes = s.writes
  deliveries : s'.deliveries = s.deliveries
  late : s'.late = s.late

theorem fail_frame (s : State) (stage : FailStage) : FailFrame s (s.fail stage).1 := by
  unfold State.fail
  split
  · split <;> constructor <;> rfl
  all_goals constructor <;> rfl

inductive WriteStep where
  | more (rest : Bytes) (total : Nat)
  | done (total : Nat) (err : Option Error)
deriving DecidableEq
/-- The body of the loop in `writeFrame`; `err` is the error of the socket after `interruptedWriteError`. -/
def writeFrame (frame : Bytes) (total : Nat) (written : Int) (err : Option Error) : WriteStep :=
  if written < 0 ∨ frame.length < written then .done total (some .shortWrite)
  else
    match err with
    | some e => .done (total + written.toNat) (some e)
    | none =>
      if written = 0 then .done total (some .shortWrite)
      else if frame.length = written then .done (total + written.toNat) none
      else .more (frame.drop written.toNat) (total + written.toNat)

def mayInterrupt (ctx : Option ContextError) (hasDeadline : Bool) : Error → Prop
  | .interrupted cause => ctx = some cause ∨ (ctx = none ∧ hasDeadline = true ∧ cause = .deadlineExceeded)
  | .socket _ _ => ctx = none
  | _ => False

inductive ReadResult where
  | more
  | frame (bytes rest : Bytes)
  | err (e : Error)

def readFrame (maxFrame : Int) (inbound : Bytes) : ReadResult :=
  if inbound.length < 4 then .more
  else
    let size := bigNat (inbound.take 4)
    if size < 1 then .err (.malformed "zero-length frame")
    else if maxFrame < size then .err (.frameTooLarge size)
    else if inbound.length < 4 + size then .more
    else .frame ((inbound.drop 4).take size) (inbound.drop (4 + size))

inductive FrameAction where
  | deliver (id : Int) (reply : FrameReply)
  | fail (err : Error)
deriving DecidableEq

def frameID (frame : Bytes) : Int := (BitVec.ofNat 32 (bigNat ((frame.drop 1).take 4))).toInt
/-- `errorResponse` decodes an `ErrorResponse` message or reports why it cannot. -/
def handleFrame (errorResponse : Bytes → Except String (Int × String)) (frame : Bytes) : FrameAction :=
  match frame with
  | [] => .fail (.malformed "empty response frame")
  | kind :: rest =>
    if kind = 0 then
      if frame.length < responseHeaderSize then .fail (.malformed "short response header")
      else .deliver (frameID frame) (.body (frame.drop 5))
    else if kind = 1 then
      if frame.length < responseHeaderSize then .fail (.malformed "short response header")
      else
        match errorResponse (frame.drop 5) with
        | .error text => .fail (.malformed ("invalid error response: " ++ text))
        | .ok (code, message) => .deliver (frameID frame) (.remote code message)
    else if kind = 2 then
      match errorResponse rest with
      | .error text => .fail (.malformed ("invalid server failure: " ++ text))
      | .ok (code, message) => .fail (.remote code message)
    else .fail (.malformed s!"unknown response type {kind.toNat}")

structure Connection where
  maxFrame : Int
  maxInFlight : Int
  requests : Nat → Request
  errorResponse : Bytes → Except String (Int × String)
  maxFrame_pos : responseHeaderSize ≤ maxFrame
  maxInFlight_pos : 1 ≤ maxInFlight

def validate (maxFrame : Int) (r : Request) (ctx : Option ContextError) : Phase :=
  if r.isNil then .returned (.invalid .nilRequest)
  else
    match ctx with
    | some cause => .returned (.context cause)
    | none =>
      match r.marshal with
      | .error text => .returned (.invalid (.marshal text))
      | .ok body =>
        if maxFrame < body.length + requestHeaderSize then
          .returned (.invalid (.frameTooLarge (body.length + requestHeaderSize)))
        else .waiting

def receiveResult (r : Request) : Reply → Result
  | .terminal err => .terminal err
  | .frame number (.remote code message) => .remote number code message
  | .frame number (.body bytes) =>
    if !r.hasResponse then .undecodable number (.malformed "no response constructor")
    else
      match r.unmarshal bytes with
      | some text => .undecodable number (.unmarshal text)
      | none => .response number bytes

def writeResult (id : Int) (total : Nat) (err finishErr : Option Error) : Phase :=
  match finishErr, err with
  | some clear, none => .discarding id (.joinedNil clear)
  | some clear, some e => .discarding id (.joined e clear)
  | none, none => .awaiting id
  | none, some e => if total ≠ 0 ∨ e.isContext = false then .discarding id e else .leaving id (.write e)
/-- The steps of a call that change nothing but its own phase. -/
inductive Move (s : State) (n : Nat) : Phase → Phase → Prop
  | cancelWait {cause : ContextError} (hctx : s.contexts n = some cause) : Move s n .waiting (.returned (.context cause))
  | closedWait {err : Error} (hclosed : s.closeErr = some err) : Move s n .waiting (.returned (.terminal err))
  | cancelSlot {cause : ContextError} (hctx : s.contexts n = some cause) :
      Move s n .slotted (.releasing (.context cause))
  | check (hctx : s.contexts n = none) : Move s n .slotted .checked
  | closedRegister {err : Error} (hclosed : s.closeErr = some err) : Move s n .checked (.releasing (.terminal err))
  | discard {id : Int} {err : Error} : Move s n (.discarding id err) (.failing id err (.start (.writeFailed err)))
  | discarded {id : Int} {err : Error} :
      Move s n (.failing id err .ended) (.leaving id (.write (.discarded err (.writeFailed err))))
  | cancelAwait {id : Int} {cause : ContextError} (hctx : s.contexts n = some cause) :
      Move s n (.awaiting id) (.leaving id (.context cause))
  | closedAwait {id : Int} {err : Error} (hclosed : s.closeErr = some err) :
      Move s n (.awaiting id) (.leaving id (.terminal err))

inductive Label where
  | write
  | other
deriving DecidableEq

inductive Step (c : Connection) : State → Label → State → Prop
  | call {s : State} {n : Nat} (hphase : s.calls n = .absent) :
      Step c s .other { s.goto n (validate c.maxFrame (c.requests n) (s.contexts n)) with
        late := if s.closeErr.isSome then n :: s.late else s.late }
  | cancel {s : State} {n : Nat} (cause : ContextError) (hctx : s.contexts n = none) :
      Step c s .other { s with contexts := Function.update s.contexts n (some cause) }
  | takeSlot {s : State} {n : Nat} (hphase : s.calls n = .waiting) (hroom : (s.slots.length : Int) < c.maxInFlight) :
      Step c s .other { s.goto n .slotted with slots := s.slots ++ [n] }
  | move {s : State} {n : Nat} {p : Phase} (hmove : Move s n (s.calls n) p) : Step c s .other (s.goto n p)
  | register {s : State} {n : Nat} {id : Int} (hphase : s.calls n = .checked) (hopen : s.closeErr = none)
      (hfree : freeID (s.pending.map fst) idAttempts s.nextID = some id) :
      Step c s .other { s.goto n (.registered id) with
        nextID := id, pending := (id, n) :: s.pending, ids := Function.update s.ids n (some id) }
  | exhausted {s : State} {n : Nat} (hphase : s.calls n = .checked) (hopen : s.closeErr = none)
      (hfree : freeID (s.pending.map fst) idAttempts s.nextID = none) :
      Step c s .other { s.goto n (.releasing (.exhausted (s.pending.map fst))) with nextID := spentID s.nextID }
  | lock {s : State} {n : Nat} {id : Int} (hphase : s.calls n = .registered id) (hfree : s.writeMu = none) :
      Step c s .other { s.goto n (.locked id) with writeMu := some n }
  | cancelWrite {s : State} {n : Nat} {id : Int} {cause : ContextError} (hphase : s.calls n = .locked id)
      (hctx : s.contexts n = some cause) :
      Step c s .other { s.goto n (.leaving id (.context cause)) with writeMu := none }
  | prepareFailed {s : State} {n : Nat} {id : Int} (text : String) (hphase : s.calls n = .locked id)
      (hctx : s.contexts n = none) (hdeadline : (c.requests n).hasDeadline = true) :
      Step c s .other { s.goto n (.discarding id (.setDeadline text)) with writeMu := none }
  | prepare {s : State} {n : Nat} {id : Int} (hphase : s.calls n = .locked id) (hctx : s.contexts n = none) :
      Step c s .other (s.goto n (.writing id ((c.requests n).frame id) 0))
  /-- The socket accepts some of the bytes; a closed one accepts none. -/
  | write {s : State} {n : Nat} {id : Int} {rest : Bytes} {total written : Nat} {err : Option Error}
      (hphase : s.calls n = .writing id rest total) (hwritten : written ≤ rest.length)
      (hopen : s.socketOpen = false → written = 0 ∧ err ≠ none)
      (herr : ∀ e, err = some e → mayInterrupt (s.contexts n) (c.requests n).hasDeadline e) :
      Step c s .write { s.goto n (match writeFrame rest total written err with
        | .more rest total => .writing id rest total
        | .done total err => .finishing id total err) with accepted := s.accepted ++ rest.take written }
  | finish {s : State} {n : Nat} {id : Int} {total : Nat} {err finishErr : Option Error}
      (hphase : s.calls n = .finishing id total err)
      (hfinish : finishErr = none ∨ (∃ text, finishErr = some (.clearDeadline text)) ∧
        ((c.requests n).hasDeadline = true ∨ s.contexts n ≠ none)) :
      Step c s .other { s.goto n (writeResult id total err finishErr) with
        writeMu := none, writes := s.writes ++ [⟨n,id,total⟩] }
  | failCall {s : State} {n : Nat} {id : Int} {err : Error} {stage : FailStage} (hphase : s.calls n = .failing id err stage)
      (hstage : stage ≠ .ended) : Step c s .other ((s.fail stage).1.goto n (.failing id err (s.fail stage).2))
  | receive {s : State} {n : Nat} {id : Int} {reply : Reply} (hphase : s.calls n = .awaiting id)
      (hreply : s.channels n = some reply) :
      Step c s .other { s.goto n (.leaving id (receiveResult (c.requests n) reply)) with
        channels := Function.update s.channels n none }
  | unregister {s : State} {n : Nat} {id : Int} {result : Result} (hphase : s.calls n = .leaving id result) :
      Step c s .other { s.goto n (.releasing result) with pending := s.pending.filter (·.1 ≠ id) }
  | release {s : State} {n : Nat} {result : Result} (hphase : s.calls n = .releasing result) :
      Step c s .other { s.goto n (.returned result) with slots := s.slots.erase n }
  | arrive {s : State} (bytes : Bytes) : Step c s .other { s with inbound := s.inbound ++ bytes }
  | read {s : State} {frame rest : Bytes} (hreader : s.reader = .reading)
      (hframe : readFrame c.maxFrame s.inbound = .frame frame rest) :
      Step c s .other { s with
        inbound := rest, frames := s.frames ++ [frame]
        reader := match handleFrame c.errorResponse frame with
          | .deliver id reply => .delivering s.frames.length id reply
          | .fail err => .failing (.start err) }
  | readFailed {s : State} (err : Error) (hreader : s.reader = .reading)
      (herr : readFrame c.maxFrame s.inbound = .err err ∨ ∃ cause text, err = .socket cause text) :
      Step c s .other { s with reader := .failing (.start err) }
  | deliver {s : State} {number call : Nat} {id : Int} {reply : FrameReply} (hreader : s.reader = .delivering number id reply)
      (hpending : s.pending.lookup id = some call) :
      Step c s .other { s with
        reader := .completing number call reply, pending := s.pending.filter (·.1 ≠ id)
        deliveries := s.deliveries ++ [(number, call)] }
  | drop {s : State} {number : Nat} {id : Int} {reply : FrameReply} (hreader : s.reader = .delivering number id reply)
      (hpending : s.pending.lookup id = none) : Step c s .other { s with reader := .reading }
  | complete {s : State} {number call : Nat} {reply : FrameReply} (hreader : s.reader = .completing number call reply) :
      Step c s .other { s with
        reader := .reading, channels := completeChannel s.channels call (.frame number reply) }
  | failReader {s : State} {stage : FailStage} (hreader : s.reader = .failing stage) (hstage : stage ≠ .ended) :
      Step c s .other { (s.fail stage).1 with reader := .failing (s.fail stage).2 }
  | close {s : State} : Step c s .other { s with closers := s.closers ++ [.start .closed] }
  | failCloser {s : State} {stage : FailStage} {before after : List FailStage}
      (hclosers : s.closers = before ++ stage :: after) (hstage : stage ≠ .ended) :
      Step c s .other { (s.fail stage).1 with closers := before ++ (s.fail stage).2 :: after }

def Connection.system (c : Connection) : System State Label where
  init s := s = {}
  step := Step c

structure Registered (s : State) (n : Nat) (id : Int) (s' : State) : Prop where
  phase : s'.calls n = .registered id
  others : ∀ m, m ≠ n → s'.calls m = s.calls m
  slots : s'.slots = s.slots ++ [n]
  pending : s'.pending = (id, n) :: s.pending
  nextID : s'.nextID = id
  contexts : s'.contexts = s.contexts
  closeErr : s'.closeErr = s.closeErr
  writeMu : s'.writeMu = s.writeMu
  socketOpen : s'.socketOpen = s.socketOpen
  accepted : s'.accepted = s.accepted
  frames : s'.frames = s.frames
  writes : s'.writes = s.writes

theorem checked_leads {T : System State Label} {c : Connection}
    (other : ∀ {s s' : State}, Step c s .other s' → T.step s .other s') {s : State} (hp : s.calls n = .absent)
    (hctx : s.contexts n = none) (ho : s.closeErr = none)
    (hv : validate c.maxFrame (c.requests n) none = .waiting) (hsl : (s.slots.length : Int) < c.maxInFlight) :
    T.Leads s { s with calls := update s.calls n .checked, slots := s.slots ++ [n] } := by
  let s₁ : State := { s.goto n .waiting with late := s.late }
  have h₁ : Step c s .other s₁ := by
    have hst := Step.call (c := c) hp
    rw [hctx,hv,ho] at hst
    exact hst
  let s₂ : State := { s₁.goto n .slotted with slots := s₁.slots ++ [n] }
  have h₂ : Step c s₁ .other s₂ := .takeSlot (goto_calls_self s n _) hsl
  let s₃ : State := s₂.goto n .checked
  have h₃ : Step c s₂ .other s₃ := by
    refine .move ?_
    rw [show s₂.calls n = .slotted from goto_calls_self s₁ n _]
    exact .check hctx
  have hs : s₃ = { s with calls := update s.calls n .checked, slots := s.slots ++ [n] } := by
    simp [s₃,s₂,s₁,State.goto]
  rw [← hs]
  exact (((System.Leads.refl s).step (other h₁)).step (other h₂)).step (other h₃)

theorem register_leads {T : System State Label} {c : Connection}
    (other : ∀ {s s' : State}, Step c s .other s' → T.step s .other s') {s : State} {id : Int}
    (hp : s.calls n = .absent) (hctx : s.contexts n = none) (ho : s.closeErr = none)
    (hv : validate c.maxFrame (c.requests n) none = .waiting) (hs : (s.slots.length : Int) < c.maxInFlight)
    (hf : freeID (s.pending.map fst) idAttempts s.nextID = some id) :
    ∃ s', T.Leads s s' ∧ Registered s n id s' := by
  let s₁ : State := { s with calls := update s.calls n .checked, slots := s.slots ++ [n] }
  let s₂ : State := { s₁.goto n (.registered id) with
    nextID := id, pending := (id, n) :: s₁.pending, ids := update s₁.ids n (some id) }
  have h₂ : Step c s₁ .other s₂ := .register (update_self ..) ho hf
  refine ⟨s₂,(checked_leads other hp hctx ho hv hs).step (other h₂),?_⟩
  constructor
  case phase => exact goto_calls_self s₁ n _
  case others =>
    intro m hm
    simp [s₂,s₁,State.goto,hm]
  all_goals rfl
end Transport
end FlussGo
