import FlussGo.Client.Open
import FlussGo.Coalesce.Sharing
/-!
# The connection manager

`connection_manager.go`: concurrent requests share the opening of connections and their cache. A step is one
critical section, the end of an `open`, one request handed to a connection or one shutdown. Connections are
numbered in the order in which their `open` ends; a panic ends the program.
-/
namespace FlussGo
/-- `connectionKey` has the fields of the node. -/
abbrev ConnectionKey := ServerNode
/-- The client of one connection, as far as the manager and its requests use it. -/
structure ManagedConn where
  key : ConnectionKey
  authenticated : Bool
  exchange : List AuthEvent
  written : List APIKey
  shut : Bool

inductive OpenPhase where
  | starting
  | opening
  | opened (result : Except ClientError Nat)
  /-- The client was not published: it is shut down next. -/
  | refused (client : Nat) (err : ClientError)
  | finished (client : Option Nat) (err : Option ClientError)
  | returned

inductive GetPhase where
  | missing (key : ConnectionKey)
  | waiting (key : ConnectionKey) (waiter : Nat)
  | using (key : ConnectionKey) (client : Nat)
  | dropping (client : Nat)
  | ended
deriving DecidableEq

inductive ClosePhase where
  | notCalled
  | collected (clients : List Nat)
  | shutting (clients : List Nat)
  | returned
deriving DecidableEq

structure Connections where
  closed : Bool := false
  clients : ConnectionKey → Option Nat := fun _ => none
  flights : Coalescer ConnectionKey (Option Nat) := newCoalescer _ _
  /-- The calls of `openManagedConnection`, by the number of their shared call. -/
  opens : List (ConnectionKey × OpenPhase) := []
  conns : List ManagedConn := []
  gets : List GetPhase := []
  closing : ClosePhase := .notCalled

inductive ConnectionsEvent where
  | get (node : ServerNode)
  | join (get : Nat)
  | receive (get : Nat)
  | send (get : Nat) (api : APIKey)
  | remove (get : Nat)
  | shutdown (get : Nat)
  /-- The attempt ends and keeps the connection. -/
  | release (get : Nat)
  | check (work : Nat)
  | opened (work : Nat) (script : OpenScript)
  | publish (work : Nat)
  | discard (work : Nat)
  | finish (work : Nat)
  | complete (work : Nat)
  | claim (waiter : Nat)
  | leave (waiter : Nat) (err : GoError)
  | close
  | closeFlights
  | closeNext
  | closeReturns

def ClientError.toGo (err : ClientError) : GoError :=
  ⟨if err.clientClosed then some .closed else if err.metadata then some .metadata else none,err.message⟩

namespace Connections
def shutConn (s : Connections) (client : Nat) : Connections :=
  { s with conns := s.conns.modify client fun conn => { conn with shut := true } }

def setGet (s : Connections) (n : Nat) (phase : GetPhase) : Connections := { s with gets := s.gets.set n phase }

def setOpen (s : Connections) (id : Nat) (key : ConnectionKey) (phase : OpenPhase) : Connections :=
  { s with opens := s.opens.set id (key, phase) }
/-- The cached clients, in the order of their numbers. -/
def cached (s : Connections) : List Nat :=
  (List.range s.conns.length).filter fun i => s.conns[i]?.any fun conn => s.clients conn.key == some i

def get (s : Connections) (node : ServerNode) : Connections :=
  let phase :=
    if node.address = "" ∨ s.closed then GetPhase.ended
    else
      match s.clients node with
      | some client => .using node client
      | none => .missing node
  { s with gets := s.gets ++ [phase] }

def join (s : Connections) (n : Nat) : Option Connections :=
  match s.gets[n]? with
  | some (.missing key) =>
    let flights := s.flights.enter key false
    let opens := if flights.shared.length = s.flights.shared.length then s.opens else s.opens ++ [(key, .starting)]
    some { s with flights, opens, gets := s.gets.set n (.waiting key s.flights.waiters.length) }
  | _ => none

def receive (s : Connections) (n : Nat) : Option Connections :=
  match s.gets[n]? with
  | some (.waiting key waiter) =>
    match s.flights.waiters[waiter]? with
    | some (.returned (.shared _ (some client) none)) => some (s.setGet n (.using key client))
    | some (.returned _) => some (s.setGet n .ended)
    | _ => none
  | _ => none
/-- `Client.request` refuses a connection that is shut down. -/
def send (s : Connections) (n : Nat) (api : APIKey) : Option Connections :=
  match s.gets[n]? with
  | some (.using _ client) =>
    some { s with conns := s.conns.modify client fun conn =>
      if conn.shut then conn else { conn with written := conn.written ++ [api] } }
  | _ => none

def remove (s : Connections) (n : Nat) : Option Connections :=
  match s.gets[n]? with
  | some (.using key client) =>
    let clients := if s.clients key = some client then Function.update s.clients key none else s.clients
    some { s with clients, gets := s.gets.set n (.dropping client) }
  | _ => none

def shutdown (s : Connections) (n : Nat) : Option Connections :=
  match s.gets[n]? with
  | some (.dropping client) => some ((s.shutConn client).setGet n .ended)
  | _ => none

def release (s : Connections) (n : Nat) : Option Connections :=
  match s.gets[n]? with
  | some (.using _ _) => some (s.setGet n .ended)
  | _ => none

def check (s : Connections) (id : Nat) : Option Connections :=
  match s.opens[id]? with
  | some (key, .starting) =>
    if s.closed then some (s.setOpen id key (.finished none (some clientClosedError)))
    else
      match s.clients key with
      | some client => some (s.setOpen id key (.finished (some client) none))
      | none => some (s.setOpen id key .opening)
  | _ => none

def opened (config : OpenConfig) (s : Connections) (id : Nat) (script : OpenScript) : Option Connections :=
  match s.opens[id]? with
  | some (key, .opening) =>
    let o := openConnection config script key.address key.serverType
    let conn : ManagedConn :=
      { key, authenticated := o.authenticated, exchange := o.exchange, written := o.written, shut := o.shut }
    match o.result with
    | .ok _ => some ({ s with conns := s.conns ++ [conn] }.setOpen id key (.opened (.ok s.conns.length)))
    | .err err =>
      let conns := if o.connected then s.conns ++ [conn] else s.conns
      some ({ s with conns }.setOpen id key (.opened (.error err)))
    | .panic _ => none
  | _ => none

def publish (s : Connections) (id : Nat) : Option Connections :=
  match s.opens[id]? with
  | some (key, .opened (.ok client)) =>
    if s.closed then some (s.setOpen id key (.refused client clientClosedError))
    else
      let clients := Function.update s.clients key (some client)
      some ({ s with clients }.setOpen id key (.finished (some client) none))
  | some (key, .opened (.error err)) => some (s.setOpen id key (.finished none (some err)))
  | _ => none

def discard (s : Connections) (id : Nat) : Option Connections :=
  match s.opens[id]? with
  | some (key, .refused client err) => some ((s.shutConn client).setOpen id key (.finished (some client) (some err)))
  | _ => none

def finish (s : Connections) (id : Nat) : Option Connections :=
  match s.opens[id]? with
  | some (key, .finished client err) => do
    let flights ← s.flights.workReturns id client (err.map ClientError.toGo)
    some ({ s with flights }.setOpen id key .returned)
  | _ => none

def flight (s : Connections) (e : CoalescerEvent ConnectionKey (Option Nat)) : Option Connections := do
  let flights ← s.flights.step e
  some { s with flights }

def close (s : Connections) : Connections :=
  if s.closed then s else { s with closed := true, closing := .collected s.cached }

def closeFlights (s : Connections) : Option Connections :=
  match s.closing with
  | .collected clients =>
    some { s with flights := s.flights.close (some Sentinel.closed.error), closing := .shutting clients }
  | _ => none

def closeNext (s : Connections) : Option Connections :=
  match s.closing with
  | .shutting (client :: clients) => some { s.shutConn client with closing := .shutting clients }
  | _ => none

def closeReturns (s : Connections) : Option Connections :=
  match s.closing with
  | .shutting [] => some { s with closing := .returned }
  | _ => none

def step (config : OpenConfig) (s : Connections) : ConnectionsEvent → Option Connections
  | .get node => some (s.get node)
  | .join n => s.join n
  | .receive n => s.receive n
  | .send n api => s.send n api
  | .remove n => s.remove n
  | .shutdown n => s.shutdown n
  | .release n => s.release n
  | .check id => s.check id
  | .opened id script => s.opened config id script
  | .publish id => s.publish id
  | .discard id => s.discard id
  | .finish id => s.finish id
  | .complete id => s.flight (.complete id)
  | .claim waiter => s.flight (.claim waiter)
  | .leave waiter err => s.flight (.leave waiter err)
  | .close => some s.close
  | .closeFlights => s.closeFlights
  | .closeNext => s.closeNext
  | .closeReturns => s.closeReturns
end Connections

def connectionsSystem (config : OpenConfig) : System Connections ConnectionsEvent where
  init s := s = {}
  step s e s' := s.step config e = some s'
end FlussGo
