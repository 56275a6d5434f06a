import LocalPost.Http.Base.PollSet
import Mathlib.Data.Rat.Defs
import Mathlib.Algebra.Order.Field.Rat
import Mathlib.Tactic.Linarith

/-!
# The deadlines of the connections

A connection has a deadline, `close_at`, and the stale sweep closes the registered connections whose
deadline has passed. The deadline is written in two places: the loop of a connection sets it to
`rw_timeout` ahead when it has received bytes, and to `keep_alive_timeout` ahead when it rolls over
to the next request. A new connection has none, and a worker that gives a connection back writes
none.

The selector is that of `Selector`; the state adds the clock, the connection whose loop runs, and
for each connection its deadline and what the loop goes by: on h11 whether `our_state` and
`their_state` are `DONE`, on httptools `_message_complete`. What arrives, what handlers and workers
do and when is left open.
-/

set_option autoImplicit false

namespace LocalPost.Http.Base.Deadlines

open LocalPost.Core

/-- The two native backends. -/
inductive Backend where
  | h11
  | httptools
  deriving DecidableEq, Repr

/-- The configuration. -/
structure ServerConfig where
  backend : Backend
  rwTimeout : ℚ
  keepAliveTimeout : ℚ
  rw_nonneg : 0 ≤ rwTimeout
  keepAlive_nonneg : 0 ≤ keepAliveTimeout

/-- Where the loop of a connection stands: at its head, inside `feed_data` (httptools), in a
handler. -/
inductive Point where
  | head
  | feeding
  | handler
  deriving DecidableEq, Repr

/-- The last response that was completed, as long as no byte has arrived since: when, the deadline
at that moment, whether the connection has stayed with the selector, and whether the loop has rolled
over since. -/
structure Completion where
  time : ℚ
  deadline : Option ℚ
  stayed : Bool
  rolled : Bool
  deriving DecidableEq, Repr

/-- A connection. `oursDone` and `theirsDone` are of h11, `messageComplete` is of httptools. `lent`
says that a worker has it. No step reads the fields from `fed` on: whether the loop has received a
byte, whether the body of the last request has not arrived whole (httptools), when the loop has
rolled over since it received the last byte, the last activity (accept, byte or completed response),
and the completed response.
-/
structure HTTPConn where
  closeAt : Option ℚ
  oursDone : Bool
  theirsDone : Bool
  messageComplete : Bool
  lent : Bool
  fed : Bool
  bodyLeft : Bool
  rolledAt : Option ℚ
  lastActivity : ℚ
  completed : Option Completion
  deriving DecidableEq, Repr

namespace HTTPConn

/-- A connection that has just been accepted. -/
def fresh (now : ℚ) : HTTPConn := ⟨none, false, false, false, false, false, false, none, now, none⟩

/-- The loop is about to roll over to the next request. -/
def pending (backend : Backend) (conn : HTTPConn) : Bool :=
  match backend with
  | .h11 => conn.oursDone && conn.theirsDone
  | .httptools => conn.messageComplete

/-- `start_next_cycle` and the lines behind it, `_reset_for_next_request`. -/
def roll (cfg : ServerConfig) (now : ℚ) (conn : HTTPConn) : HTTPConn :=
  { conn with
    closeAt := some (now + cfg.keepAliveTimeout)
    oursDone := false
    theirsDone := false
    messageComplete := false
    rolledAt := some now
    completed := conn.completed.map fun k => { k with rolled := true } }

/-- The loop has received bytes. -/
def receive (cfg : ServerConfig) (now : ℚ) (conn : HTTPConn) : HTTPConn :=
  { conn with
    closeAt := some (now + cfg.rwTimeout)
    fed := true
    rolledAt := none
    lastActivity := now
    completed := none }

/-- The head of a request has been parsed: `on_headers_complete`, or the event of h11. -/
def request (backend : Backend) (conn : HTTPConn) : HTTPConn :=
  match backend with
  | .h11 => conn
  | .httptools => { conn with messageComplete := false, bodyLeft := true }

/-- `on_message_complete`. -/
def onMessageComplete (conn : HTTPConn) : HTTPConn :=
  { conn with messageComplete := true, bodyLeft := false }

/-- `ctx.receive`, by a handler or a worker: with or without bytes from the socket, up to the end of
the body or not. -/
def reads (backend : Backend) (now : ℚ) (bytes complete : Bool) (conn : HTTPConn) : HTTPConn :=
  let conn := if bytes then { conn with lastActivity := now, completed := none } else conn
  match backend, complete with
  | _, false => conn
  | .h11, true => { conn with theirsDone := true }
  | .httptools, true => conn.onMessageComplete

/-- `finish_response`, when it does not close the connection: on h11 it goes on to the end of the
request. -/
def finishResponse (backend : Backend) (now : ℚ) (stayed : Bool) (conn : HTTPConn) : HTTPConn :=
  let conn := { conn with
    lastActivity := now
    completed := some ⟨now, conn.closeAt, stayed, false⟩ }
  match backend with
  | .h11 => { conn with oursDone := true, theirsDone := true }
  | .httptools => conn

/-- A worker takes the connection. -/
def borrow (conn : HTTPConn) : HTTPConn :=
  { conn with
    lent := true
    completed := conn.completed.map fun k => { k with stayed := false } }

end HTTPConn

/-- A server: the selector, the clock, the connection whose loop runs, the connections. -/
structure Server where
  sel : Selector
  now : ℚ
  running : Option (Nat × Point)
  conn : Nat → HTTPConn

/-- What can happen. Of the connection whose loop runs: `roll`, `receive`, `request`,
`messageComplete`, `feedEnds`, `borrow` (`stop_tracking`), `handlerReturns`, `returns`, `blocks`
(`recv` raises), `closes`. -/
inductive Event where
  | tick (d : ℚ)
  | accept (fd : Nat) (here : Bool)
  | drain
  | sweep
  | readable (c : Nat)
  | roll
  | receive
  | request
  | messageComplete
  | feedEnds
  | borrow
  | handlerReturns
  | returns
  | blocks
  | closes
  | reads (c : Nat) (bytes complete : Bool)
  | finishes (c : Nat)
  | givesBack (c : Nat) (here : Bool)
  | selector (a : Act)

/-- The steps of a `close` on another thread. -/
def Event.isClose : Act → Bool
  | .closeMark _ => true
  | .closeSock _ => true
  | .closePost _ => true
  | _ => false

namespace Server

/-- A server whose clock shows `t`. -/
def start (t : ℚ) : Server := ⟨Selector.start, t, none, fun _ => HTTPConn.fresh t⟩

/-- A change of a connection. -/
def modify (s : Server) (c : Nat) (f : HTTPConn → HTTPConn) : Server :=
  { s with conn := Function.update s.conn c (f (s.conn c)) }

/-- The selector polls the socket of the connection for it. -/
def registered (s : Server) (c : Nat) : Bool := (s.sel.map (s.sel.fd c)).any fun key => key.data = c

/-- The test of `_find_stale`: `data.close_at and now > data.close_at`. -/
def isStale (s : Server) (c : Nat) : Bool :=
  match (s.conn c).closeAt with
  | none => false
  | some a => decide (a ≠ 0 ∧ a < s.now)

/-- `_cleanup_stale`. -/
def cleanupStale (s : Server) : Server :=
  { s with sel := s.sel.cleanupStale ((List.range s.sel.next).filter s.isStale) }

/-- The loop of connection `c` is inside the handler of a request that stays with the selector. -/
def inHandler (s : Server) (c : Nat) : Bool := s.running = some (c, .handler) && s.sel.tracked c

/-- One step. The selector thread accepts, applies operations, sweeps and begins a loop when no loop
runs. -/
def step (cfg : ServerConfig) (s : Server) : Event → Option Server
  | .tick d => if 0 ≤ d then some { s with now := s.now + d } else none
  | .accept fd here =>
    if here && s.running.isSome then none
    else
      -- `TrackHere` on the selector thread, `RoundRobinAcceptor` on another one
      (s.sel.step (.accept fd)).bind fun sel =>
        (sel.step (if here then .track s.sel.next true else .postTrack s.sel.next)).map fun sel =>
          { s with sel := sel, conn := Function.update s.conn s.sel.next (.fresh s.now) }
  | .drain =>
    if s.running.isSome then none else (s.sel.step .drain).map fun sel => { s with sel := sel }
  | .sweep => if s.running.isSome then none else some s.cleanupStale
  | .readable c =>
    if s.running = none ∧ s.registered c ∧ s.sel.isOpen c then
      some { s with running := some (c, .head) }
    else none
  | .roll =>
    match s.running with
    | some (c, .head) =>
      if s.sel.tracked c ∧ (s.conn c).pending cfg.backend then some (s.modify c (.roll cfg s.now))
      else none
    | _ => none
  | .receive =>
    match s.running with
    | some (c, .head) =>
      if s.sel.tracked c ∧ ¬ (s.conn c).pending cfg.backend then
        some { s.modify c (.receive cfg s.now) with
          running := some (c, if cfg.backend = .httptools then .feeding else .head) }
      else none
    | _ => none
  | .request =>
    match s.running, cfg.backend with
    | some (c, .head), .h11 =>
      if s.sel.tracked c ∧ ¬ (s.conn c).pending .h11 ∧ (s.conn c).fed then
        some { s.modify c (.request .h11) with running := some (c, .handler) }
      else none
    | some (c, .feeding), .httptools =>
      some { s.modify c (.request .httptools) with running := some (c, .handler) }
    | _, _ => none
  | .messageComplete =>
    match s.running with
    | some (c, .feeding) => some (s.modify c .onMessageComplete)
    | _ => none
  | .feedEnds =>
    match s.running with
    | some (c, .feeding) => some { s with running := some (c, .head) }
    | _ => none
  | .borrow =>
    match s.running with
    | none => none
    | some (_, .head) => none
    | some (c, point) =>
      -- behind `feed_data` it is the dispatch that a handler has deferred
      if s.sel.tracked c ∧
          (point = .handler ∨ (s.conn c).messageComplete ∨ (s.conn c).bodyLeft) then
        (s.sel.step (.stopTracking c)).map fun sel => { s.modify c .borrow with sel := sel }
      else none
  | .handlerReturns =>
    match s.running, cfg.backend with
    | some (c, .handler), .h11 =>
      -- without the whole request the connection is not kept
      if s.sel.tracked c ∧ ¬ (s.conn c).theirsDone then
        (s.sel.step (.closeHere c)).map fun sel => { s with sel := sel, running := none }
      else some { s with running := some (c, .head) }
    | some (c, .handler), .httptools => some { s with running := some (c, .feeding) }
    | _, _ => none
  | .returns =>
    match s.running with
    | some (c, .head) => if s.sel.tracked c then none else some { s with running := none }
    | _ => none
  | .blocks =>
    match s.running with
    | some (c, .head) =>
      if s.sel.tracked c ∧ ¬ (s.conn c).pending cfg.backend then some { s with running := none }
      else none
    | _ => none
  | .closes =>
    match s.running with
    | some (c, _) => (s.sel.step (.closeHere c)).map fun sel => { s with sel := sel }
    | none => none
  | .reads c bytes complete =>
    if s.inHandler c ∨ (s.conn c).lent then
      some (s.modify c (.reads cfg.backend s.now bytes complete))
    else none
  | .finishes c =>
    if s.inHandler c ∨ (s.conn c).lent then
      some (s.modify c (.finishResponse cfg.backend s.now (s.inHandler c)))
    else none
  | .givesBack c here =>
    if (s.conn c).lent then
      (s.sel.step (.track c here)).map fun sel =>
        { s.modify c (fun conn => { conn with lent := false }) with sel := sel }
    else none
  | .selector a =>
    if Event.isClose a then (s.sel.step a).map fun sel => { s with sel := sel } else none

/-- The server as a transition system; its clock is ahead of zero when it starts. -/
def lts (cfg : ServerConfig) : Lts Server Event := ⟨fun s => ∃ t > 0, s = start t, step cfg⟩

end Server

end LocalPost.Http.Base.Deadlines
