import LocalPost.Core.Lts
import Mathlib.Logic.Function.Basic

/-!
# The selector: connections, the Python map, the kernel's poll set, the operation queue

Connections are numbered in the order of their creation. A key of the Python map holds the socket it
was registered with (`fileobj`) and the connection it dispatches to (`data`), both as connection
numbers. The kernel drops a descriptor from its poll set when the socket is closed, and may give its
number to the next socket.

The functions follow `Selector` and `BaseHTTPConn.close`, and under them `register`, `unregister`
and `modify` of the standard library's selector: a socket that is closed has no descriptor any more,
and is looked up by identity among the keys instead; `modify` with the event mask it already has
changes the key and leaves the poll set alone. `none` stands for an exception. `stop_tracking`, the
queue and the sweep run on the selector thread, `track` and `close` on any thread. An off-thread
`close` takes three steps: the connection is marked untracked, its socket is closed, `_OpClose` is
posted.
-/

set_option autoImplicit false

namespace LocalPost.Http.Base

open LocalPost.Core

/-- The fields of `BaseHTTPConn` the selector looks at; `isOpen` is false once the socket is
closed. -/
structure Conn where
  fd : Nat
  isOpen : Bool
  tracked : Bool
  deriving DecidableEq, Repr

/-- A key of the Python map. -/
structure Key where
  fileobj : Nat
  data : Nat
  deriving DecidableEq, Repr

/-- `_OpTrack` and `_OpClose`. -/
inductive Op where
  | track (c : Nat)
  | close (fd : Nat)
  deriving DecidableEq, Repr

/-- The selector with its connections. `marked` are the off-thread `close` calls that have not
closed the socket yet, with the `was_tracked` they read; `closing` are the descriptors of those that
have closed it and not posted their operation yet. -/
structure Selector where
  conns : Nat → Conn
  next : Nat
  map : Nat → Option Key
  kernel : Nat → Bool
  ops : List Op
  marked : List (Nat × Bool)
  closing : List Nat

namespace Selector

/-- A selector without connections. -/
def start : Selector := ⟨fun _ => ⟨0, false, false⟩, 0, fun _ => none, fun _ => false, [], [], []⟩

/-- The descriptor number of connection `c`. -/
def fd (s : Selector) (c : Nat) : Nat := (s.conns c).fd

/-- The socket of connection `c` is open. -/
def isOpen (s : Selector) (c : Nat) : Bool := (s.conns c).isOpen

/-- `conn.tracked`. -/
def tracked (s : Selector) (c : Nat) : Bool := (s.conns c).tracked

/-- `conn.tracked = b`. -/
def setTracked (s : Selector) (c : Nat) (b : Bool) : Selector :=
  { s with conns := Function.update s.conns c { s.conns c with tracked := b } }

/-- `sock.close()`: the kernel drops the descriptor from its poll set. Closing twice does
nothing. -/
def sockClose (s : Selector) (c : Nat) : Selector :=
  if s.isOpen c then
    { s with
      conns := Function.update s.conns c { s.conns c with isOpen := false }
      kernel := Function.update s.kernel (s.fd c) false }
  else s

/-- `_fileobj_lookup`: the descriptor of an open socket, the key that holds a closed one. A socket
is registered under its own descriptor only, so that is where the search can find it. -/
def fileobjLookup (s : Selector) (c : Nat) : Option Nat :=
  if s.isOpen c then some (s.fd c)
  else if (s.map (s.fd c)).any (fun key => key.fileobj = c) then some (s.fd c)
  else none

/-- `unregister(fd)`, errors swallowed. -/
def unregister (s : Selector) (fd : Nat) : Selector :=
  if (s.map fd).isSome then
    { s with
      map := Function.update s.map fd none
      kernel := Function.update s.kernel fd false }
  else s

/-- `unregister(conn.sock)`, errors swallowed. -/
def unregisterSock (s : Selector) (c : Nat) : Selector :=
  match s.fileobjLookup c with
  | some fd => s.unregister fd
  | none => s

/-- `modify(sock, EVENT_READ, data=conn)`: the mask does not change, so only the key does. -/
def modify (s : Selector) (c : Nat) : Option Selector :=
  match s.fileobjLookup c with
  | none => none
  | some fd =>
    match s.map fd with
    | none => none
    | some key => some { s with map := Function.update s.map fd (some { key with data := c }) }

/-- `register(sock, EVENT_READ, data=conn)`; the kernel refuses a descriptor it polls already. -/
def register (s : Selector) (c : Nat) : Option Selector :=
  match s.fileobjLookup c with
  | none => none
  | some fd =>
    if (s.map fd).isSome || s.kernel fd then none
    else some { s with
      map := Function.update s.map fd (some ⟨c, c⟩)
      kernel := Function.update s.kernel fd true }

/-- `_apply_track`. -/
def applyTrack (s : Selector) (c : Nat) : Selector :=
  match if (s.map (s.fd c)).isSome then s.modify c else s.register c with
  | some s' => s'
  | none => (s.setTracked c false).sockClose c

/-- `track`, on the selector thread or on another one. -/
def track (s : Selector) (c : Nat) (here : Bool) : Selector :=
  if s.tracked c then s
  else if here then (s.setTracked c true).applyTrack c
  else { s.setTracked c true with ops := s.ops ++ [.track c] }

/-- `post_track`. -/
def postTrack (s : Selector) (c : Nat) : Selector :=
  { s.setTracked c true with ops := s.ops ++ [.track c] }

/-- `post_close`. -/
def postClose (s : Selector) (fd : Nat) : Selector := { s with ops := s.ops ++ [.close fd] }

/-- `stop_tracking`. -/
def stopTracking (s : Selector) (c : Nat) : Selector := (s.unregisterSock c).setTracked c false

/-- `close` on another thread: `was_tracked = self.tracked; self.tracked = False`. -/
def closeMark (s : Selector) (c : Nat) : Selector :=
  { s.setTracked c false with marked := s.marked ++ [(c, s.tracked c)] }

/-- The `i`-th marked `close` closes its socket. -/
def closeSock (s : Selector) (i : Nat) : Option Selector :=
  s.marked[i]?.map fun (c, wasTracked) =>
    { s.sockClose c with
      marked := s.marked.eraseIdx i
      closing := if wasTracked then s.closing ++ [s.fd c] else s.closing }

/-- The `i`-th `close` with a closed socket posts `_OpClose`. -/
def closePost (s : Selector) (i : Nat) : Option Selector :=
  s.closing[i]?.map fun fd => { s with closing := s.closing.eraseIdx i }.postClose fd

/-- `close` on the selector thread. -/
def closeHere (s : Selector) (c : Nat) : Selector :=
  let s' := (s.setTracked c false).sockClose c
  if s.tracked c then s'.unregister (s.fd c) else s'

/-- One round of the loop in `_drain_ops`. -/
def drain (s : Selector) : Option Selector :=
  match s.ops with
  | [] => none
  | .track c :: rest => some ({ s with ops := rest }.applyTrack c)
  | .close fd :: rest => some ({ s with ops := rest }.unregister fd)

/-- `_cleanup_stale`, where `late` are the connections whose deadline has passed. -/
def cleanupStale (s : Selector) (late : List Nat) : Selector :=
  let stale := late.filter fun c => (s.map (s.fd c)).any fun key => key.data = c
  stale.foldl sockClose (stale.foldl stopTracking s)

end Selector

/-- One step. `accept` carries the number the kernel gives to the new socket; `closePost` and
`closeSock` carry the place of the `close` call they continue. -/
inductive Act where
  | accept (fd : Nat)
  | track (c : Nat) (here : Bool)
  | postTrack (c : Nat)
  | postClose (fd : Nat)
  | stopTracking (c : Nat)
  | closeMark (c : Nat)
  | closeSock (i : Nat)
  | closePost (i : Nat)
  | closeHere (c : Nat)
  | drain
  | cleanupStale (late : List Nat)
  deriving DecidableEq, Repr

namespace Selector

/-- One step of the selector and its clients. The kernel gives a new socket any number that no open
socket has. -/
def step (s : Selector) : Act → Option Selector
  | .accept fd =>
    if ∀ c < s.next, s.isOpen c = true → s.fd c ≠ fd then
      some { s with
        conns := Function.update s.conns s.next ⟨fd, true, false⟩, next := s.next + 1 }
    else none
  | .track c here => if c < s.next then some (s.track c here) else none
  | .postTrack c => if c < s.next then some (s.postTrack c) else none
  | .postClose fd => some (s.postClose fd)
  | .stopTracking c => if c < s.next then some (s.stopTracking c) else none
  | .closeMark c => if c < s.next then some (s.closeMark c) else none
  | .closeSock i => s.closeSock i
  | .closePost i => s.closePost i
  | .closeHere c => if c < s.next then some (s.closeHere c) else none
  | .drain => s.drain
  | .cleanupStale late => some (s.cleanupStale late)

end Selector

/-- A selector with any number of connections and threads. -/
def system : Lts Selector Act where
  init s := s = Selector.start
  step := Selector.step

end LocalPost.Http.Base
