import FlussGo.Go.Basic
import FlussGo.Lib.Run
import Mathlib.Logic.Function.Basic
/-!
# Shared calls

`coalescer.go`: concurrent `Do` calls for one key share one run of the work. A step is one critical
section, the return of the work, or one call of the disposer. Shared calls are numbered in the order in which
they are created, `Do` calls in the order in which they enter.
-/
namespace FlussGo
/-- Where the goroutine `run` of a shared call is. `disposed` of the call is what it and the waiters
have passed to the disposer so far. -/
inductive Worker (V : Type) where
  | running
  | returned (value : V) (err : Option GoError)
  | disposing
  | ended
deriving DecidableEq

structure SharedCall (K V : Type) where
  key : K
  disposer : Bool
  waiters : Nat
  canceled : Bool := false
  value : V
  err : Option GoError := none
  completed : Bool := false
  claimed : Bool := false
  succeeded : Bool := false
  worker : Worker V := .running
  disposed : List V := []
deriving DecidableEq
/-- How a `Do` call ended: refused by a closed coalescer, through the completion of its shared call, or
through its own context. -/
inductive Returned (V : Type) where
  | refused (err : GoError)
  | shared (call : Nat) (value : V) (err : Option GoError)
  | left (call : Nat) (err : GoError)
deriving DecidableEq

inductive Waiter (V : Type) where
  | waiting (call : Nat)
  | disposing (call : Nat) (err : GoError)
  | returned (result : Returned V)
deriving DecidableEq

structure Coalescer (K V : Type) where
  shared : List (SharedCall K V)
  calls : K → Option Nat
  closed : Option GoError
  waiters : List (Waiter V)

def newCoalescer (K V : Type) : Coalescer K V where
  shared := []
  calls _ := none
  closed := none
  waiters := []

inductive CoalescerEvent (K V : Type) where
  | enter (key : K) (disposer : Bool)
  | workReturns (call : Nat) (value : V) (err : Option GoError)
  | complete (call : Nat)
  | dispose (call : Nat)
  | claim (waiter : Nat)
  /-- `Do` takes the branch of `ctx.Done()`; the critical section of `release`. -/
  | leave (waiter : Nat) (err : GoError)
  | drop (waiter : Nat)
  | close (err : Option GoError)

variable {K V : Type}

namespace SharedCall
/-- The fields `run` writes under the lock, and whether it disposes of the value afterwards. -/
def finish (call : SharedCall K V) (closed : Option GoError) (value : V) (err : Option GoError) : SharedCall K V :=
  let succeeded := err.isNone
  let dispose := !call.claimed && succeeded && call.disposer && (call.waiters == 0 || closed.isSome)
  { call with
    value, completed := true, succeeded
    err := if closed.isSome then closed else err
    worker := if dispose then .disposing else .ended }

def outcome [Inhabited V] (call : SharedCall K V) : V × Option GoError :=
  (if call.err.isSome then default else call.value, call.err)
end SharedCall

namespace Coalescer
variable [DecidableEq K]

def update (c : Coalescer K V) (id : Nat) (call : SharedCall K V) : Coalescer K V :=
  { c with shared := c.shared.set id call }

def unregister (c : Coalescer K V) (id : Nat) (key : K) : Coalescer K V :=
  if c.calls key = some id then { c with calls := Function.update c.calls key none } else c
/-- `releaseLocked`, with whether the caller gets a disposer to call. -/
def releaseLocked (c : Coalescer K V) (id : Nat) (call : SharedCall K V) : Coalescer K V × Bool :=
  let waiters := call.waiters - 1
  if waiters ≠ 0 then (c.update id { call with waiters }, false)
  else if !call.completed then ((c.unregister id call.key).update id { call with waiters, canceled := true }, false)
  else (c.update id { call with waiters }, !call.claimed && call.succeeded && call.disposer)

def enter [Inhabited V] (c : Coalescer K V) (key : K) (disposer : Bool) : Coalescer K V :=
  match c.closed with
  | some err => { c with waiters := c.waiters ++ [.returned (.refused err)] }
  | none =>
    match c.calls key with
    | some id =>
      { c with
        shared := c.shared.modify id fun call => { call with waiters := call.waiters + 1 }
        waiters := c.waiters ++ [.waiting id] }
    | none =>
      { c with
        shared := c.shared ++ [{ key, disposer, waiters := 1, value := default }]
        calls := Function.update c.calls key (some c.shared.length)
        waiters := c.waiters ++ [.waiting c.shared.length] }

def workReturns (c : Coalescer K V) (id : Nat) (value : V) (err : Option GoError) : Option (Coalescer K V) := do
  let call ← c.shared[id]?
  match call.worker with
  | .running => some (c.update id { call with worker := .returned value err, canceled := true })
  | _ => none

def complete (c : Coalescer K V) (id : Nat) : Option (Coalescer K V) := do
  let call ← c.shared[id]?
  match call.worker with
  | .returned value err => some ((c.unregister id call.key).update id (call.finish c.closed value err))
  | _ => none

def dispose (c : Coalescer K V) (id : Nat) : Option (Coalescer K V) := do
  let call ← c.shared[id]?
  match call.worker with
  | .disposing => some (c.update id { call with worker := .ended, disposed := call.disposed ++ [call.value] })
  | _ => none

def claim [Inhabited V] (c : Coalescer K V) (waiter : Nat) : Option (Coalescer K V) :=
  match c.waiters[waiter]? with
  | some (.waiting id) => do
    let call ← c.shared[id]?
    if call.completed then
      -- The disposer that releaseLocked returns is not called on this branch.
      let released := (c.releaseLocked id { call with claimed := true }).1
      some { released with
        waiters := c.waiters.set waiter (.returned (.shared id call.outcome.1 call.outcome.2)) }
    else none
  | _ => none

def leave (c : Coalescer K V) (waiter : Nat) (err : GoError) : Option (Coalescer K V) :=
  match c.waiters[waiter]? with
  | some (.waiting id) => do
    let call ← c.shared[id]?
    let released := c.releaseLocked id call
    let left := if released.2 then Waiter.disposing id err else .returned (.left id err)
    some { released.1 with waiters := c.waiters.set waiter left }
  | _ => none

def drop (c : Coalescer K V) (waiter : Nat) : Option (Coalescer K V) :=
  match c.waiters[waiter]? with
  | some (.disposing id err) => do
    let call ← c.shared[id]?
    some { c.update id { call with disposed := call.disposed ++ [call.value] } with
      waiters := c.waiters.set waiter (.returned (.left id err)) }
  | _ => none

def close (c : Coalescer K V) (err : Option GoError) : Coalescer K V :=
  match c.closed with
  | some _ => c
  | none =>
    { c with
      closed := some (err.getD Sentinel.closed.error)
      shared := c.shared.mapIdx fun id call =>
        if c.calls call.key = some id then { call with canceled := true } else call }

def step [Inhabited V] (c : Coalescer K V) : CoalescerEvent K V → Option (Coalescer K V)
  | .enter key disposer => some (c.enter key disposer)
  | .workReturns call value err => c.workReturns call value err
  | .complete call => c.complete call
  | .dispose call => c.dispose call
  | .claim waiter => c.claim waiter
  | .leave waiter err => c.leave waiter err
  | .drop waiter => c.drop waiter
  | .close err => some (c.close err)
end Coalescer

def coalescerSystem (K V : Type) [DecidableEq K] [Inhabited V] : System (Coalescer K V) (CoalescerEvent K V) where
  init c := c = newCoalescer K V
  step c e c' := c.step e = some c'
end FlussGo
