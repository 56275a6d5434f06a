import LocalPost.Http.Base.PollSet
import LocalPost.Core.ListEntries

/-!
# Selector.shutdown against track, post_track and close

`shutdown` runs after the loop has stopped, while other threads are inside `track`, `post_track` and
`close`. A call is a program counter here: the test of `shutting_down`, the test and the change of
`conn.tracked`, the append to the queue and the write to the wake-up pipe are steps of their own,
and so are the flag, each `popleft`, the snapshot of the map, each round of the walk and the closing
of the pipe. Before the shutdown the loop takes the steps of `Selector` (without the sweep of stale
connections).

`handed` is a ghost field: the connections that were handed to `track` or `post_track` and that
`stop_tracking` has not given to a worker since. `stray` records a write to the descriptor of the
pipe after it was closed.
-/

set_option autoImplicit false

namespace LocalPost.Http.Base

open LocalPost.Core

/-- The methods that other threads call. -/
inductive Method where
  | track
  | postTrack
  | close
  deriving DecidableEq, Repr

/-- The next step of a call: the test of `shutting_down`; `sock.close()` and `conn.tracked = False`
of a call that has seen the flag; `if conn.tracked: return`; `conn.tracked = True`; `_ops.append`;
`_wake`. Of `close`: reading and clearing `tracked`, closing the socket. -/
inductive Pc where
  | check
  | reject
  | untrack
  | test
  | mark
  | append
  | wake
  | closeMark
  | closeSock (wasTracked : Bool)
  | done
  deriving DecidableEq, Repr

/-- A call at this point is going to write to the pipe. -/
def Pc.writes : Pc → Bool
  | .mark => true
  | .append => true
  | .wake => true
  | .closeSock wasTracked => wasTracked
  | _ => false

/-- A call of another thread. -/
structure Call where
  method : Method
  conn : Nat
  pc : Pc
  deriving DecidableEq, Repr

/-- Where `shutdown` stands: not called, the flag is set, the queue was found empty, connections of
the snapshot are left, the pipe is closed. -/
inductive Stage where
  | running
  | draining
  | drained
  | walking (left : List Nat)
  | finished
  deriving DecidableEq, Repr

/-- A selector with the calls of other threads and its shutdown. -/
structure Shutdown where
  sel : Selector
  stage : Stage
  calls : List Call
  handed : Nat → Bool
  stray : Bool

/-- One step: the loop or an acceptor (`loop`), the beginning and the next step of a call, the steps
of `shutdown`. -/
inductive ShutdownAct where
  | loop (a : Act)
  | call (m : Method) (c : Nat)
  | advance (i : Nat)
  | shutdown
  | popOp
  | snapshot
  | walkOne
  | closePipe
  deriving DecidableEq, Repr

namespace Shutdown

/-- A selector without connections. -/
def start : Shutdown := ⟨.start, .running, [], fun _ => false, false⟩

/-- The operation that a call appends. -/
def opOf (s : Shutdown) (k : Call) : Op :=
  match k.method with
  | .close => .close (s.sel.fd k.conn)
  | _ => .track k.conn

/-- A step of the selector's own thread, or a new connection on any thread. -/
def loop (s : Shutdown) : Act → Option Shutdown
  | .accept fd => (s.sel.step (.accept fd)).map fun sel => { s with sel := sel }
  | .track c true =>
    if s.stage = .running then
      (s.sel.step (.track c true)).map fun sel =>
        { s with sel := sel, handed := Function.update s.handed c true }
    else none
  | .stopTracking c =>
    if s.stage = .running then
      (s.sel.step (.stopTracking c)).map fun sel =>
        { s with sel := sel, handed := Function.update s.handed c false }
    else none
  | .closeHere c =>
    if s.stage = .running then
      (s.sel.step (.closeHere c)).map fun sel => { s with sel := sel }
    else none
  | .drain =>
    if s.stage = .running then (s.sel.step .drain).map fun sel => { s with sel := sel } else none
  | _ => none

/-- A thread calls `m` for connection `c`. -/
def call (s : Shutdown) (m : Method) (c : Nat) : Option Shutdown :=
  if c < s.sel.next then
    if m = .close then some { s with calls := s.calls ++ [⟨m, c, .closeMark⟩] }
    else some { s with
      calls := s.calls ++ [⟨m, c, .check⟩], handed := Function.update s.handed c true }
  else none

/-- The selector and the next program counter after call `k` has taken its step. -/
def next (s : Shutdown) (k : Call) : Option (Selector × Pc) :=
  match k.pc with
  | .check =>
    if s.stage = .running then some (s.sel, if k.method = .track then .test else .mark)
    else some (s.sel, .reject)
  | .reject => some (s.sel.sockClose k.conn, .untrack)
  | .untrack => some (s.sel.setTracked k.conn false, .done)
  | .test => some (s.sel, if s.sel.tracked k.conn then .done else .mark)
  | .mark => some (s.sel.setTracked k.conn true, .append)
  | .append => some ({ s.sel with ops := s.sel.ops ++ [s.opOf k] }, .wake)
  | .wake => some (s.sel, .done)
  | .closeMark => some (s.sel.setTracked k.conn false, .closeSock (s.sel.tracked k.conn))
  | .closeSock wasTracked =>
    some (s.sel.sockClose k.conn, if wasTracked then .append else .done)
  | .done => none

/-- Call number `i`, which was `k`, has come to `pc`. -/
def moved (s : Shutdown) (i : Nat) (k : Call) (sel : Selector) (pc : Pc) : Shutdown :=
  { s with
    sel := sel
    calls := s.calls.set i { k with pc := pc }
    handed := if k.pc = .mark then Function.update s.handed k.conn true else s.handed
    stray := s.stray || (k.pc = .wake && s.stage = .finished) }

/-- Call number `i` takes its next step. -/
def advance (s : Shutdown) (i : Nat) : Option Shutdown :=
  (s.calls[i]?).bind fun k => (s.next k).map fun (sel, pc) => s.moved i k sel pc

/-- One `popleft` of `shutdown`. -/
def popOp (s : Shutdown) : Option Shutdown :=
  if s.stage = .draining then
    match s.sel.ops with
    | [] => some { s with stage := .drained }
    | .track c :: rest =>
      some { s with sel := (({ s.sel with ops := rest }).sockClose c).setTracked c false }
    | .close _ :: rest => some { s with sel := { s.sel with ops := rest } }
  else none

/-- `list(self._sel.get_map().values())`, the connections of the keys. -/
def listed (sel : Selector) : List Nat :=
  (List.range sel.next).filterMap fun c =>
    match sel.map (sel.fd c) with
    | some key => if key.fileobj = c then some key.data else none
    | none => none

/-- One step of `shutdown` from the snapshot on. -/
def walk (s : Shutdown) : ShutdownAct → Option Shutdown
  | .snapshot =>
    if s.stage = .drained then some { s with stage := .walking (listed s.sel) } else none
  | .walkOne =>
    match s.stage with
    | .walking (c :: left) =>
      some { s with
        sel := ((s.sel.unregisterSock c).sockClose c).setTracked c false
        stage := .walking left }
    | _ => none
  | .closePipe => if s.stage = .walking [] then some { s with stage := .finished } else none
  | _ => none

/-- One step. -/
def step (s : Shutdown) : ShutdownAct → Option Shutdown
  | .loop a => s.loop a
  | .call m c => s.call m c
  | .advance i => s.advance i
  | .shutdown => if s.stage = .running then some { s with stage := .draining } else none
  | .popOp => s.popOp
  | .snapshot => s.walk .snapshot
  | .walkOne => s.walk .walkOne
  | .closePipe => s.walk .closePipe

end Shutdown

/-- A selector with its shutdown and any number of threads. -/
def shutdownSystem : Lts Shutdown ShutdownAct where
  init s := s = .start
  step := Shutdown.step

namespace Shutdown

/-! ## The property and the condition -/

/-- After the shutdown a connection that was handed over is closed once the calls for it have
returned, and nobody has written to the closed pipe. -/
structure Sound (s : Shutdown) : Prop where
  noLeak : s.stage = .finished → ∀ c, s.handed c = true →
    (∀ k ∈ s.calls, k.conn = c → k.pc = .done) → s.sel.isOpen c = false
  noStray : s.stray = false

/-- The shutdown has not found the queue empty yet. -/
def Early (s : Shutdown) : Prop := s.stage = .running ∨ s.stage = .draining

instance (s : Shutdown) : Decidable s.Early := inferInstanceAs (Decidable (_ ∨ _))

/-- The key under the descriptor of `c` dispatches to `c`. -/
def Listed (sel : Selector) (c : Nat) : Prop := ∃ key ∈ sel.map (sel.fd c), key.data = c

instance (sel : Selector) (c : Nat) : Decidable (Listed sel c) :=
  match h : sel.map (sel.fd c) with
  | none => .isFalse (by simp [Listed, h])
  | some key => decidable_of_iff (key.data = c) (by simp [Listed, h])

/-- The shutdown is going to find `c` in the map, or among the connections that are left. -/
def Registered (s : Shutdown) (c : Nat) : Prop :=
  match s.stage with
  | .walking left => c ∈ left
  | .finished => False
  | _ => Listed s.sel c

instance (s : Shutdown) (c : Nat) : Decidable (s.Registered c) :=
  match h : s.stage with
  | .walking left => decidable_of_iff (c ∈ left) (by simp [Registered, h])
  | .finished => .isFalse (by simp [Registered, h])
  | .running => decidable_of_iff (Listed s.sel c) (by simp [Registered, h])
  | .draining => decidable_of_iff (Listed s.sel c) (by simp [Registered, h])
  | .drained => decidable_of_iff (Listed s.sel c) (by simp [Registered, h])

/-- The key under `fd`, if there is one, dispatches to `c` or to a closed connection. -/
def Spares (sel : Selector) (fd c : Nat) : Prop :=
  ∀ key ∈ sel.map fd, key.data = c ∨ sel.isOpen key.data = false

instance (sel : Selector) (fd c : Nat) : Decidable (Spares sel fd c) :=
  inferInstanceAs (Decidable (∀ _ ∈ _, _))

/-- The condition on a step of the loop: what it removes from the map or redirects is not the key of
another open connection, one that has got the descriptor number in the meantime. -/
def LoopTimely (sel : Selector) : Act → Prop
  | .track c _ => sel.tracked c = false → Spares sel (sel.fd c) c
  | .stopTracking c => Spares sel (sel.fd c) c
  | .closeHere c => sel.tracked c = true → Spares sel (sel.fd c) c
  | .drain =>
    match sel.ops with
    | [] => True
    | .track c :: _ => Spares sel (sel.fd c) c
    | .close fd :: _ => ∀ key ∈ sel.map fd, sel.isOpen key.data = false
  | _ => True

instance (sel : Selector) : ∀ a, Decidable (LoopTimely sel a)
  | .track _ _ => inferInstanceAs (Decidable (_ → _))
  | .stopTracking c => inferInstanceAs (Decidable (Spares sel (sel.fd c) c))
  | .closeHere _ => inferInstanceAs (Decidable (_ → _))
  | .drain =>
    match h : sel.ops with
    | [] => .isTrue (by simp [LoopTimely, h])
    | .track c :: _ => decidable_of_iff (Spares sel (sel.fd c) c) (by simp [LoopTimely, h])
    | .close fd :: _ =>
      decidable_of_iff (∀ key ∈ sel.map fd, sel.isOpen key.data = false) (by simp [LoopTimely, h])
  | .accept _ => .isTrue trivial
  | .postTrack _ => .isTrue trivial
  | .postClose _ => .isTrue trivial
  | .closeMark _ => .isTrue trivial
  | .closeSock _ => .isTrue trivial
  | .closePost _ => .isTrue trivial
  | .cleanupStale _ => .isTrue trivial

/-- The condition on a step. When `shutdown` finds the queue empty, no `track` or `post_track` is
past its test of the flag and before its append with an open connection that is not in the map; when
it closes the pipe, no call is on its way to a wake-up. A `track` that comes to its test of
`tracked` only after the drain finds it set, or, while the pipe is open, has a connection that is
closed or will be; a `close` that begins after the pipe was closed finds its connection
untracked. -/
def Timely (s : Shutdown) : ShutdownAct → Prop
  | .loop a => LoopTimely s.sel a
  | .advance i => ∀ k ∈ s.calls[i]?,
      (k.pc = .test → ¬s.Early → s.sel.tracked k.conn = true ∨
        s.stage ≠ .finished ∧ (s.sel.isOpen k.conn = false ∨ s.Registered k.conn)) ∧
      (k.pc = .closeMark → s.stage = .finished → s.sel.tracked k.conn = false)
  | .popOp => s.sel.ops = [] → ∀ k ∈ s.calls, k.pc = .mark ∨ k.pc = .append ∧ k.method ≠ .close →
      s.sel.isOpen k.conn = true → Listed s.sel k.conn
  | .closePipe => ∀ k ∈ s.calls, k.pc.writes = false
  | _ => True

instance (s : Shutdown) : ∀ a, Decidable (s.Timely a)
  | .loop a => inferInstanceAs (Decidable (LoopTimely s.sel a))
  | .advance _ => inferInstanceAs (Decidable (∀ _ ∈ _, _ ∧ _))
  | .popOp => inferInstanceAs (Decidable (_ → ∀ _ ∈ _, _ → _ → _))
  | .closePipe => inferInstanceAs (Decidable (∀ _ ∈ _, _))
  | .call _ _ => .isTrue trivial
  | .shutdown => .isTrue trivial
  | .snapshot => .isTrue trivial
  | .walkOne => .isTrue trivial

end Shutdown

end LocalPost.Http.Base
