import LocalPost.Core.Condition

/-!
# The shared state of a channel and its critical sections

`ChannelState` is the state that all handles of one channel share, guarded by one lock. Each
`with state:` block of `_SendChannel` and `_ReceiveChannel` is one function here: it takes the state
under the lock, and gives the state when the lock is released together with what the block did
(raised, returned, fell asleep in `wait`). A block that ends in `wait` releases the lock from inside
the block, so `__exit__` does not run for it; it runs when the woken thread leaves the block.

Counters are integers, as in the source; that they never go below zero is proved, not assumed.
-/

set_option autoImplicit false

namespace LocalPost.Threadtools.Channel

open LocalPost.Core

universe u

/-- The exception classes a channel call can raise. -/
inductive ErrorKind where
  | closedResource
  | endOfStream
  | wouldBlock
  | timeout
  | value
  deriving DecidableEq, Repr

/-- The exceptions a channel call can raise, one constructor for each `raise`. -/
inductive ChannelError where
  | sendClosed
  | sendAlreadyClosed
  | receiveClosed
  | receiveAlreadyClosed
  | noMoreReceivers
  | noMoreSenders
  | wouldBlock
  | timeout
  | negativeTimeout
  | negativeCapacity
  deriving DecidableEq, Repr

/-- The class of an exception. -/
def ChannelError.kind : ChannelError → ErrorKind
  | .sendClosed => .closedResource
  | .sendAlreadyClosed => .closedResource
  | .receiveClosed => .closedResource
  | .receiveAlreadyClosed => .closedResource
  | .noMoreReceivers => .closedResource
  | .noMoreSenders => .endOfStream
  | .wouldBlock => .wouldBlock
  | .timeout => .timeout
  | .negativeTimeout => .value
  | .negativeCapacity => .value

/-- The text of an exception. -/
def ChannelError.message : ChannelError → String
  | .sendClosed => "send channel has been closed"
  | .sendAlreadyClosed => "send channel is already closed"
  | .receiveClosed => "receive channel has been closed"
  | .receiveAlreadyClosed => "receive channel is already closed"
  | .noMoreReceivers => "no more receivers"
  | .noMoreSenders => "no more senders"
  | .wouldBlock => ""
  | .timeout => ""
  | .negativeTimeout => "timeout must be >= 0"
  | .negativeCapacity => "capacity must be >= 0 or None"

/-- The state shared by the handles of one channel. Capacity `none` is unbounded, `some 0` is a
rendezvous. -/
structure ChannelState (T : Type u) where
  buffer : List T
  capacity : Option Nat
  openSendChannels : Int
  openReceiveChannels : Int
  waitingReceivers : Int
  pendingHandoffs : Int
  itemsConsumed : Int
  notEmpty : Condition Nat
  notFull : Condition Nat

/-- What the phase-1 block of `put` did: raised, appended the item with the phase-2 target (zero
unless the channel is a rendezvous), or fell asleep on `not_full`. -/
inductive PutResult where
  | raised (e : ChannelError)
  | appended (target : Int)
  | waiting

/-- What the phase-2 block of `put` did. -/
inductive HandoffResult where
  | raised (e : ChannelError)
  | returned
  | waiting

/-- What the block of `get` did. -/
inductive GetResult (T : Type u) where
  | raised (e : ChannelError)
  | took (item : T)
  | waiting

/-- `_deadline`. -/
def deadlineOf (now : Int) : Option Int → Except ChannelError (Option Int)
  | none => .ok none
  | some timeout => if timeout < 0 then .error .negativeTimeout else .ok (some (now + timeout))

/-- `wait_for is not None and wait_for <= 0` for `wait_for = _remaining(deadline)`. -/
def expired (now : Int) : Option Int → Bool
  | none => false
  | some d => d - now ≤ 0

namespace ChannelState

variable {T : Type u}

/-- `ChannelState.__init__`. -/
def new (capacity : Option Nat) : ChannelState T where
  buffer := []
  capacity := capacity
  openSendChannels := 0
  openReceiveChannels := 0
  waitingReceivers := 0
  pendingHandoffs := 0
  itemsConsumed := 0
  notEmpty := .empty
  notFull := .empty

/-- `can_put`. -/
def canPut (st : ChannelState T) : Except ChannelError Bool :=
  if st.openReceiveChannels = 0 then .error .noMoreReceivers
  else match st.capacity with
    | some 0 => .ok (decide (st.waitingReceivers > st.pendingHandoffs) || st.buffer.isEmpty)
    | none => .ok true
    | some n => .ok (decide (st.buffer.length < n))

/-- `can_put_nowait`. -/
def canPutNowait (st : ChannelState T) : Except ChannelError Bool :=
  if st.openReceiveChannels = 0 then .error .noMoreReceivers
  else match st.capacity with
    | some 0 => .ok (decide (st.waitingReceivers > st.pendingHandoffs))
    | none => .ok true
    | some n => .ok (decide (st.buffer.length < n))

/-- `__enter__`: thread `t` holds the lock, so it is no longer a woken thread on its way. -/
def enter (st : ChannelState T) (t : Nat) : ChannelState T :=
  { st with notEmpty := st.notEmpty.recheck t, notFull := st.notFull.recheck t }

/-- `__exit__`. -/
def exit (st : ChannelState T) : ChannelState T :=
  if st.openSendChannels = 0 ∨ st.openReceiveChannels = 0 then
    { st with notEmpty := st.notEmpty.notifyAll, notFull := st.notFull.notifyAll }
  else st

/-- The append shared by `put` and `put_nowait`: the item goes to the back of the buffer, a claim on
a waiting receiver is counted, one receiver is notified. -/
def push (st : ChannelState T) (item : T) (claim : Bool) : ChannelState T :=
  { st with
    buffer := st.buffer ++ [item]
    pendingHandoffs := if claim then st.pendingHandoffs + 1 else st.pendingHandoffs
    notEmpty := st.notEmpty.notify }

/-- The claim made by `put`: a rendezvous with a receiver nobody has claimed yet. -/
def claims (st : ChannelState T) : Bool :=
  st.capacity = some 0 && decide (st.waitingReceivers > st.pendingHandoffs)

/-- The phase-2 target of an item appended in this state. -/
def target (st : ChannelState T) : Int :=
  if st.capacity = some 0 then st.itemsConsumed + (st.buffer.length + 1 : Nat) else 0

/-- `_SendChannel.put_nowait`. -/
def putNowait (st : ChannelState T) (closed : Bool) (item : T) :
    ChannelState T × Except ChannelError Unit :=
  if closed then (st.exit, .error .sendClosed)
  else match st.canPutNowait with
    | .error e => (st.exit, .error e)
    | .ok false => (st.exit, .error .wouldBlock)
    | .ok true => ((st.push item (st.capacity = some 0)).exit, .ok ())

/-- The block of phase 1 of `_SendChannel.put`, run by thread `t`. -/
def putSpace (st : ChannelState T) (t : Nat) (closed : Bool) (item : T) (late : Bool) :
    ChannelState T × PutResult :=
  if closed then (st.exit, .raised .sendClosed)
  else match st.canPut with
    | .error e => (st.exit, .raised e)
    | .ok true => ((st.push item st.claims).exit, .appended st.target)
    | .ok false =>
      if late then (st.exit, .raised .timeout)
      else ({ st with notFull := st.notFull.wait t }, .waiting)

/-- The block of phase 2 of `_SendChannel.put`, run by thread `t`. -/
def putHandoff (st : ChannelState T) (t : Nat) (closed : Bool) (myTarget : Int) (late : Bool) :
    ChannelState T × HandoffResult :=
  if closed then (st.exit, .raised .sendClosed)
  else if st.itemsConsumed ≥ myTarget then (st.exit, .returned)
  else if st.openReceiveChannels = 0 then (st.exit, .returned)
  else if late then (st.exit, .raised .timeout)
  else ({ st with notFull := st.notFull.wait t }, .waiting)

/-- `_ReceiveChannel._take` once the item `buffer.popleft()` is known: `rest` stays in the buffer,
one sender is notified. -/
def take (st : ChannelState T) (rest : List T) : ChannelState T :=
  { st with
    buffer := rest
    itemsConsumed := if st.capacity = some 0 then st.itemsConsumed + 1 else st.itemsConsumed
    pendingHandoffs :=
      if st.capacity = some 0 ∧ st.pendingHandoffs > 0 then st.pendingHandoffs - 1
      else st.pendingHandoffs
    notFull := st.notFull.notify }

/-- `_ReceiveChannel.get_nowait`. -/
def getNowait (st : ChannelState T) (closed : Bool) : ChannelState T × Except ChannelError T :=
  if closed then (st.exit, .error .receiveClosed)
  else match st.buffer with
    | item :: rest => ((st.take rest).exit, .ok item)
    | [] =>
      if st.openSendChannels = 0 then (st.exit, .error .noMoreSenders)
      else (st.exit, .error .wouldBlock)

/-- The block of `_ReceiveChannel.get`, run by thread `t`. -/
def get (st : ChannelState T) (t : Nat) (closed : Bool) (late : Bool) :
    ChannelState T × GetResult T :=
  if closed then (st.exit, .raised .receiveClosed)
  else match st.buffer with
    | item :: rest => ((st.take rest).exit, .took item)
    | [] =>
      if st.openSendChannels = 0 then (st.exit, .raised .noMoreSenders)
      else if late then (st.exit, .raised .timeout)
      else
        ({ st with
            waitingReceivers := st.waitingReceivers + 1
            notEmpty := st.notEmpty.wait t }, .waiting)

/-- The rest of the block after `not_full.wait` in `put`, both phases. -/
def wakeSender (st : ChannelState T) (t : Nat) : ChannelState T :=
  { st with notFull := st.notFull.drop t }.exit

/-- The rest of the block after `not_empty.wait` in `get`, with its `finally`. -/
def wakeReceiver (st : ChannelState T) (t : Nat) : ChannelState T :=
  { st with
    notEmpty := st.notEmpty.drop t
    waitingReceivers := st.waitingReceivers - 1 }.exit

/-- The block of `_SendChannel.clone` on a handle that is not closed. -/
def cloneSend (st : ChannelState T) : ChannelState T :=
  { st with openSendChannels := st.openSendChannels + 1 }.exit

/-- The block of `_ReceiveChannel.clone` on a handle that is not closed. -/
def cloneReceive (st : ChannelState T) : ChannelState T :=
  { st with openReceiveChannels := st.openReceiveChannels + 1 }.exit

/-- The block of `_SendChannel.close` on a handle that is not closed. -/
def closeSend (st : ChannelState T) : ChannelState T :=
  { st with
    openSendChannels := st.openSendChannels - 1
    notEmpty := st.notEmpty.notifyAll
    notFull := st.notFull.notifyAll }.exit

/-- The block of `_ReceiveChannel.close` on a handle that is not closed. -/
def closeReceive (st : ChannelState T) : ChannelState T :=
  { st with
    openReceiveChannels := st.openReceiveChannels - 1
    notEmpty := st.notEmpty.notifyAll
    notFull := st.notFull.notifyAll }.exit

/-- The state of a channel with one send handle and one receive handle. -/
def opened (capacity : Option Nat) : ChannelState T :=
  { (new capacity : ChannelState T) with openSendChannels := 1, openReceiveChannels := 1 }

/-- `Channel.create`, with the capacity check of `ChannelState.__init__`. -/
def create : Option Int → Except ChannelError (ChannelState T)
  | none => .ok (opened none)
  | some n => if n < 0 then .error .negativeCapacity else .ok (opened (some n.toNat))

@[simp] theorem enter_buffer (st : ChannelState T) (t : Nat) : (st.enter t).buffer = st.buffer :=
  rfl

@[simp] theorem enter_capacity (st : ChannelState T) (t : Nat) :
    (st.enter t).capacity = st.capacity := rfl

@[simp] theorem enter_openSendChannels (st : ChannelState T) (t : Nat) :
    (st.enter t).openSendChannels = st.openSendChannels := rfl

@[simp] theorem enter_openReceiveChannels (st : ChannelState T) (t : Nat) :
    (st.enter t).openReceiveChannels = st.openReceiveChannels := rfl

@[simp] theorem enter_waitingReceivers (st : ChannelState T) (t : Nat) :
    (st.enter t).waitingReceivers = st.waitingReceivers := rfl

@[simp] theorem enter_pendingHandoffs (st : ChannelState T) (t : Nat) :
    (st.enter t).pendingHandoffs = st.pendingHandoffs := rfl

@[simp] theorem enter_itemsConsumed (st : ChannelState T) (t : Nat) :
    (st.enter t).itemsConsumed = st.itemsConsumed := rfl

@[simp] theorem enter_notEmpty (st : ChannelState T) (t : Nat) :
    (st.enter t).notEmpty = st.notEmpty.recheck t := rfl

@[simp] theorem enter_notFull (st : ChannelState T) (t : Nat) :
    (st.enter t).notFull = st.notFull.recheck t := rfl

@[simp] theorem enter_canPut (st : ChannelState T) (t : Nat) : (st.enter t).canPut = st.canPut :=
  rfl

/-- While both sides have an open handle, `__exit__` only releases the lock. -/
theorem exit_of_open {st : ChannelState T} (hs : st.openSendChannels ≠ 0)
    (hr : st.openReceiveChannels ≠ 0) : st.exit = st := by
  simp [exit, hs, hr]

/-- With nobody asleep, `__exit__` only releases the lock. -/
theorem exit_of_nobody {st : ChannelState T} (he : st.notEmpty.waiters = [])
    (hf : st.notFull.waiters = []) : st.exit = st := by
  simp [exit, Condition.notifyAll_of_waiters_nil he, Condition.notifyAll_of_waiters_nil hf]

theorem getNowait_cons {st : ChannelState T} {item : T} {rest : List T}
    (h : st.buffer = item :: rest) : st.getNowait false = ((st.take rest).exit, .ok item) := by
  simp [getNowait, h]

theorem getNowait_nil {st : ChannelState T} (h : st.buffer = []) :
    st.getNowait false =
      if st.openSendChannels = 0 then (st.exit, .error .noMoreSenders)
      else (st.exit, .error .wouldBlock) := by
  simp [getNowait, h]

/-- `get` on an open handle takes the oldest item whenever there is one. -/
theorem get_cons {st : ChannelState T} {t : Nat} {late : Bool} {item : T} {rest : List T}
    (h : st.buffer = item :: rest) :
    st.get t false late = ((st.take rest).exit, .took item) := by
  simp [get, h]

theorem get_nil {st : ChannelState T} {t : Nat} {late : Bool} (h : st.buffer = []) :
    st.get t false late =
      if st.openSendChannels = 0 then (st.exit, .raised .noMoreSenders)
      else if late then (st.exit, .raised .timeout)
      else
        ({ st with
            waitingReceivers := st.waitingReceivers + 1
            notEmpty := st.notEmpty.wait t }, .waiting) := by
  simp [get, h]

end ChannelState

end LocalPost.Threadtools.Channel
