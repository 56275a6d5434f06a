import LocalPost.Core.Lts
import LocalPost.Threadtools.Channel.State
import Mathlib.Logic.Function.Basic

/-!
# Threads, handles and clock around a channel

`Sys` adds to the shared state of a channel everything its calls depend on: the handles, each with
its own `_closed` flag, the control point of every thread, and the clock that timeouts are measured
with. One action lets the clock advance, lets an idle thread begin a call, or lets a thread run its
next critical section; a critical section is one step. A sleeping thread can go on once it has been
notified, or once its deadline has passed, in which case it first takes itself out of the queue: the
notification it may have received between its timeout and that moment is absorbed by it.

`log` is the history of the channel: every call, every append to and every removal from the buffer,
and how each call ended, in the order of the critical sections.
-/

set_option autoImplicit false

namespace LocalPost.Threadtools.Channel

open LocalPost.Core

universe u

/-- The calls a thread can make. Handles are numbered in the order of their creation. -/
inductive Op (T : Type u) where
  | put (handle : Nat) (item : T) (timeout : Option Int)
  | putNowait (handle : Nat) (item : T)
  | get (handle : Nat) (timeout : Option Int)
  | getNowait (handle : Nat)
  | cloneSend (handle : Nat)
  | cloneReceive (handle : Nat)
  | closeSend (handle : Nat)
  | closeReceive (handle : Nat)
  deriving DecidableEq, Repr

/-- The local variables of a running `put`. -/
structure PutCall (T : Type u) where
  call : Nat
  handle : Nat
  item : T
  deadline : Option Int
  deriving DecidableEq, Repr

/-- The local variables of a running `get`. -/
structure GetCall where
  call : Nat
  handle : Nat
  deadline : Option Int
  deriving DecidableEq, Repr

/-- Phase 1 of `put` waits for space, phase 2 until the item with `my_target` is consumed. -/
inductive Phase where
  | space
  | handoff (myTarget : Int)
  deriving DecidableEq, Repr

/-- Where a thread stands: outside the channel, before the next `with state:` of its call, or inside
`wait`. -/
inductive Pc (T : Type u) where
  | idle
  | putting (c : PutCall T) (phase : Phase) (asleep : Bool)
  | getting (c : GetCall) (asleep : Bool)
  deriving DecidableEq, Repr

/-- One entry of the history; `call` numbers the calls. -/
inductive Event (T : Type u) where
  | began (call : Nat) (op : Op T)
  | appended (call : Nat) (item : T)
  | took (call : Nat) (item : T)
  | returned (call : Nat)
  | raised (call : Nat) (e : ChannelError)
  deriving DecidableEq, Repr

/-- The call an event belongs to. -/
def Event.call {T : Type u} : Event T → Nat
  | .began c _ => c
  | .appended c _ => c
  | .took c _ => c
  | .returned c => c
  | .raised c _ => c

/-- One step: the clock advances, a thread begins a call, a thread runs its next critical
section. -/
inductive Act (T : Type u) where
  | tick (d : Nat)
  | call (t : Nat) (op : Op T)
  | run (t : Nat)
  deriving DecidableEq, Repr

/-- A channel with its handles, threads, clock and history. `senders` and `receivers` hold the
`_closed` flags. -/
structure Sys (T : Type u) where
  chan : ChannelState T
  senders : List Bool
  receivers : List Bool
  pc : Nat → Pc T
  now : Int
  calls : Nat
  log : List (Event T)

namespace Sys

variable {T : Type u}

/-- A new channel, nobody in it. -/
def start (capacity : Option Nat) : Sys T where
  chan := .opened capacity
  senders := [false]
  receivers := [false]
  pc := fun _ => .idle
  now := 0
  calls := 0
  log := []

/-- The `_closed` flag of a send handle. -/
def senderClosed (s : Sys T) (h : Nat) : Bool := s.senders.getD h true

/-- The `_closed` flag of a receive handle. -/
def receiverClosed (s : Sys T) (h : Nat) : Bool := s.receivers.getD h true

/-- Thread `t` moves to `pc`, the shared state becomes `chan`, the history grows by `evs`. -/
def goto (s : Sys T) (t : Nat) (chan : ChannelState T) (pc : Pc T) (evs : List (Event T)) : Sys T :=
  { s with chan := chan, pc := Function.update s.pc t pc, log := s.log ++ evs }

/-- An idle thread `t` begins the call `op`. `put` and `get` compute their deadline and stop before
their first critical section; the other calls are a single critical section. -/
def begin (s : Sys T) (t : Nat) (op : Op T) : Option (Sys T) :=
  let c := s.calls
  let s : Sys T := { s with calls := c + 1, log := s.log ++ [.began c op] }
  match op with
  -- A handle that does not exist is no call at all.
  | .put h item timeout =>
    if s.senders.length ≤ h then none
    else match deadlineOf s.now timeout with
      | .error e => some (s.goto t s.chan .idle [.raised c e])
      | .ok d => some (s.goto t s.chan (.putting ⟨c, h, item, d⟩ .space false) [])
  | .get h timeout =>
    if s.receivers.length ≤ h then none
    else match deadlineOf s.now timeout with
      | .error e => some (s.goto t s.chan .idle [.raised c e])
      | .ok d => some (s.goto t s.chan (.getting ⟨c, h, d⟩ false) [])
  | .putNowait h item =>
    if s.senders.length ≤ h then none
    else match (s.chan.enter t).putNowait (s.senderClosed h) item with
      | (chan, .ok _) => some (s.goto t chan .idle [.appended c item, .returned c])
      | (chan, .error e) => some (s.goto t chan .idle [.raised c e])
  | .getNowait h =>
    if s.receivers.length ≤ h then none
    else match (s.chan.enter t).getNowait (s.receiverClosed h) with
      | (chan, .ok item) => some (s.goto t chan .idle [.took c item, .returned c])
      | (chan, .error e) => some (s.goto t chan .idle [.raised c e])
  -- `clone` of a closed handle raises; `close` of one returns, as it may be called twice.
  | .cloneSend h =>
    if s.senders.length ≤ h then none
    else if s.senderClosed h then
      some (s.goto t (s.chan.enter t).exit .idle [.raised c .sendAlreadyClosed])
    else
      some { s.goto t (s.chan.enter t).cloneSend .idle [.returned c] with
        senders := s.senders ++ [false] }
  | .cloneReceive h =>
    if s.receivers.length ≤ h then none
    else if s.receiverClosed h then
      some (s.goto t (s.chan.enter t).exit .idle [.raised c .receiveAlreadyClosed])
    else
      some { s.goto t (s.chan.enter t).cloneReceive .idle [.returned c] with
        receivers := s.receivers ++ [false] }
  | .closeSend h =>
    if s.senders.length ≤ h then none
    else if s.senderClosed h then
      some (s.goto t (s.chan.enter t).exit .idle [.returned c])
    else
      some { s.goto t (s.chan.enter t).closeSend .idle [.returned c] with
        senders := s.senders.set h true }
  | .closeReceive h =>
    if s.receivers.length ≤ h then none
    else if s.receiverClosed h then
      some (s.goto t (s.chan.enter t).exit .idle [.returned c])
    else
      some { s.goto t (s.chan.enter t).closeReceive .idle [.returned c] with
        receivers := s.receivers.set h true }

/-- Thread `t` runs the phase-1 block of its `put`. Without a hand-off the call is over once the
item is in the buffer. -/
def runPutSpace (s : Sys T) (t : Nat) (c : PutCall T) : Sys T :=
  match (s.chan.enter t).putSpace t (s.senderClosed c.handle) c.item (expired s.now c.deadline) with
  | (chan, .raised e) => s.goto t chan .idle [.raised c.call e]
  | (chan, .appended myTarget) =>
    if s.chan.capacity = some 0 then
      s.goto t chan (.putting c (.handoff myTarget) false) [.appended c.call c.item]
    else s.goto t chan .idle [.appended c.call c.item, .returned c.call]
  | (chan, .waiting) => s.goto t chan (.putting c .space true) []

/-- Thread `t` runs the phase-2 block of its `put`. -/
def runPutHandoff (s : Sys T) (t : Nat) (c : PutCall T) (myTarget : Int) : Sys T :=
  match (s.chan.enter t).putHandoff t (s.senderClosed c.handle) myTarget
      (expired s.now c.deadline) with
  | (chan, .raised e) => s.goto t chan .idle [.raised c.call e]
  | (chan, .returned) => s.goto t chan .idle [.returned c.call]
  | (chan, .waiting) => s.goto t chan (.putting c (.handoff myTarget) true) []

/-- Thread `t` runs the block of its `get`. -/
def runGet (s : Sys T) (t : Nat) (c : GetCall) : Sys T :=
  match (s.chan.enter t).get t (s.receiverClosed c.handle) (expired s.now c.deadline) with
  | (chan, .raised e) => s.goto t chan .idle [.raised c.call e]
  | (chan, .took item) => s.goto t chan .idle [.took c.call item, .returned c.call]
  | (chan, .waiting) => s.goto t chan (.getting c true) []

/-- Thread `t` runs its next critical section. A sleeping thread goes on only when it has been
notified or its deadline has passed. -/
def run (s : Sys T) (t : Nat) : Option (Sys T) :=
  match s.pc t with
  | .idle => none
  | .putting c .space false => some (s.runPutSpace t c)
  | .putting c (.handoff myTarget) false => some (s.runPutHandoff t c myTarget)
  | .putting c phase true =>
    if t ∉ s.chan.notFull.waiters ∨ expired s.now c.deadline then
      some (s.goto t (s.chan.wakeSender t) (.putting c phase false) [])
    else none
  | .getting c false => some (s.runGet t c)
  | .getting c true =>
    if t ∉ s.chan.notEmpty.waiters ∨ expired s.now c.deadline then
      some (s.goto t (s.chan.wakeReceiver t) (.getting c false) [])
    else none

/-- One step of the system. -/
def step (s : Sys T) : Act T → Option (Sys T)
  | .tick d => some { s with now := s.now + d }
  | .call t op =>
    match s.pc t with
    | .idle => s.begin t op
    | _ => none
  | .run t => s.run t

end Sys

/-- A channel of the given capacity with any number of threads. -/
def system (T : Type u) (capacity : Option Nat) : Lts (Sys T) (Act T) where
  init s := s = Sys.start capacity
  step := Sys.step

end LocalPost.Threadtools.Channel
