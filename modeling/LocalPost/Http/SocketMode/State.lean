import LocalPost.Core.Keeps
import LocalPost.Http.Base.Selector
import LocalPost.Http.Writer.Message
import Mathlib.Data.Rat.Defs

/-!
# Sockets, their modes, and the helpers of `_base.py` that switch them

A socket is in non-blocking mode when its timeout is `0`. Connections, their registration and the
operation queue are those of `Selector`; the state adds the timeout of every socket, what the two
backends keep for a connection and for a request, and `answers`: what the code outside (the sockets,
the parser libraries, the handlers) does when it is called, in this order. An answer may be an
exception, at any call. A call for which there is no fitting answer raises too.
-/

set_option autoImplicit false

namespace LocalPost.Http.SocketMode

open LocalPost.Core LocalPost.Http.Base

/-- What a call raises. `connectionAborted` is an `OSError` too, `other` is any other `Exception`,
and `base` is none. -/
inductive Exc where
  | blockingIOError
  | timeout
  | osError
  | connectionAborted
  | valueError
  | assertion
  | protocolError
  | bodyTooLarge
  | runtimeError
  | cancelled
  | other
  | base
  deriving DecidableEq, Repr

/-- `except OSError`. -/
def Exc.isOSError : Exc → Bool
  | .blockingIOError => true
  | .timeout => true
  | .osError => true
  | .connectionAborted => true
  | _ => false

/-- `except Exception`. -/
def Exc.isException (e : Exc) : Bool := e ≠ .base

/-- The methods of a request context; `exit` is the end of the block of `borrow()`, and `dispatch`
is what the pool does with a request. `close` is `ctx.conn.close()`. -/
inductive Method where
  | startResponse (r : Writer.Response)
  | informational (r : Writer.Response)
  | send (chunk : Bytes)
  | finishResponse
  | complete (r : Writer.Response) (body : Option Bytes)
  | stream (r : Writer.Response) (chunks : List Bytes) (ending : Writer.Ending)
  | sendfile (r : Writer.Response) (count : Nat)
  | receive (size : Nat)
  | borrow
  | exit
  | dispatch
  | close
  deriving DecidableEq, Repr

/-- A call of a method on a context, by the selector thread or by another one. -/
structure Call where
  ctx : Nat
  method : Method
  here : Bool
  deriving DecidableEq, Repr

/-- What a handler does: its calls, and what it raises in the end. It may catch what a call raises
and go on. -/
structure HandlerRun where
  calls : List Call
  raises : Option Exc
  deriving DecidableEq, Repr

/-- `parser.next_event()` of h11. -/
inductive Event where
  | needData
  | paused
  | request (method : Bytes) (headers : List (Bytes × Bytes)) (handler : HandlerRun)
  | data (b : Bytes)
  | endOfMessage
  | connectionClosed
  deriving DecidableEq, Repr

/-- What `feed_data` of httptools calls back. -/
inductive Callback where
  | headersComplete (method : Bytes) (headers : List (Bytes × Bytes)) (keepAlive : Bool)
      (handler : HandlerRun)
  | body (b : Bytes)
  | messageComplete
  deriving DecidableEq, Repr

/-- `our_state` of h11. -/
inductive OurState where
  | idle
  | sendResponse
  | done
  | mustClose
  | other
  deriving DecidableEq, Repr

/-- What a call outside answers: an exception, or the value of `sock.send`, of `sock.recv`, of
`parser.send`, of `parser.next_event`, of `parser.our_state` and `parser.their_state is DONE`, of
`they_are_waiting_for_100_continue`, the callbacks of `feed_data` and whether it raises behind them,
the calls that workers make behind `start_soon` before the thread that has called it goes on, or
nothing. -/
inductive Answer where
  | raises (e : Exc)
  | sent (n : Nat)
  | received (data : Bytes)
  | payload (p : Option Bytes)
  | event (e : Event)
  | states (ours : OurState) (theirsDone : Bool)
  | waiting (b : Bool)
  | fed (callbacks : List Callback) (fails : Bool)
  | started (calls : List Call)
  | returns
  deriving DecidableEq, Repr

/-- What the backends keep for a connection: `body_bytes_received` is of h11, the other fields but
`idle` are of httptools. -/
structure HTTPConn where
  idle : Bool
  bodyBytesReceived : Nat
  current : Option Nat
  bodyBuf : Bytes
  bodyEom : Bool
  messageComplete : Bool
  bodyTooLarge : Bool
  oversize : Bool
  expect100 : Bool
  responseStarted : Bool
  closeAfterResponse : Bool
  deferred : Option Nat
  deriving DecidableEq, Repr

/-- A connection before its first request. -/
def HTTPConn.fresh : HTTPConn where
  idle := true
  bodyBytesReceived := 0
  current := none
  bodyBuf := []
  bodyEom := false
  messageComplete := false
  bodyTooLarge := false
  oversize := false
  expect100 := false
  responseStarted := false
  closeAfterResponse := false
  deferred := none

/-- `_HTTPReqCtx`: the fields behind `pendingHeaderBytes` are of httptools. -/
structure Ctx where
  conn : Nat
  method : Bytes
  responseStatus : Option Nat
  pendingHeaderBytes : Option Bytes
  expect100Continue : Bool
  keepAlive : Bool
  continueSent : Bool
  chunked : Bool
  bodyAllowed : Bool
  deriving DecidableEq, Repr

/-- The context of a request. -/
def Ctx.fresh (conn : Nat) (method : Bytes) (expect100Continue keepAlive : Bool) : Ctx where
  conn := conn
  method := method
  responseStatus := none
  pendingHeaderBytes := none
  expect100Continue := expect100Continue
  keepAlive := keepAlive
  continueSent := false
  chunked := false
  bodyAllowed := true

/-- The configuration, and on httptools `_serialize_response` and the wire bytes of the canned
responses. -/
structure Config where
  rwTimeout : ℚ
  maxBodySize : Nat
  serialize : Writer.Response → Bytes
  badRequestWire : Bytes
  payloadTooLargeWire : Bytes
  requestTimeoutWire : Bytes

/-- A server: the selector, the sockets' timeouts, the connections and the requests. -/
structure State where
  sel : Selector
  shuttingDown : Bool
  timeout : Nat → ℚ
  conns : Nat → HTTPConn
  ctxs : Nat → Ctx
  next : Nat
  answers : List Answer

/-- A server before its first connection. -/
def State.start : State where
  sel := Selector.start
  shuttingDown := false
  timeout := fun _ => 0
  conns := fun _ => HTTPConn.fresh
  ctxs := fun _ => Ctx.fresh 0 [] false false
  next := 0
  answers := []

/-- A piece of the server. -/
abbrev Prog := EStateM Exc State

/-! ## Calls outside -/

/-- The next answer. -/
def ask : Prog Answer := fun s =>
  match s.answers with
  | [] => .error .other s
  | .raises e :: rest => .error e { s with answers := rest }
  | a :: rest => .ok a { s with answers := rest }

/-- A call on the socket; on a closed one it raises. -/
def askSocket (c : Nat) : Prog Answer := do
  if (← get).sel.isOpen c then ask else throw .osError

/-- `sock.send`. -/
def sockSend (c : Nat) : Prog Nat := do
  match ← askSocket c with
  | .sent n => pure n
  | _ => throw .other

/-- `sock.recv`. -/
def sockRecv (c : Nat) : Prog Bytes := do
  match ← askSocket c with
  | .received data => pure data
  | _ => throw .other

/-- `sock.sendall` and `sock.sendfile`. -/
def sockSendall (c : Nat) : Prog PUnit := do
  match ← askSocket c with
  | .returns => pure ⟨⟩
  | _ => throw .other

/-- `sock.settimeout`: a negative timeout is refused; on a closed socket it raises behind setting
the timeout. -/
def settimeout (c : Nat) (t : ℚ) : Prog PUnit := fun s =>
  if t < 0 then .error .valueError s
  else if s.sel.isOpen c then .ok ⟨⟩ { s with timeout := Function.update s.timeout c t }
  else .error .osError { s with timeout := Function.update s.timeout c t }

/-- `tg.start_soon` of the pool for request `k`. Its worker may be quick, and has done with it what
it does before the thread goes on; `serve` runs its calls. -/
def startSoon (serve : HandlerRun → Nat → Prog PUnit) (k : Nat) : Prog PUnit := do
  match ← ask with
  | .started calls => serve ⟨calls, none⟩ k
  | _ => throw .other

/-- The fields of a context. -/
def getCtx (k : Nat) : Prog Ctx := do
  let s ← get
  if k < s.next then pure (s.ctxs k) else throw .other

/-- A change of a context's fields. -/
def setCtx (k : Nat) (f : Ctx → Ctx) : Prog PUnit :=
  modify fun s =>
    { s with ctxs := Function.update s.ctxs k { f (s.ctxs k) with conn := (s.ctxs k).conn } }

/-- A change of what is kept for a connection. -/
def setConn (c : Nat) (f : HTTPConn → HTTPConn) : Prog PUnit :=
  modify fun s => { s with conns := Function.update s.conns c (f (s.conns c)) }

/-- A change of the selector. -/
def setSel (f : Selector → Selector) : Prog PUnit := modify fun s => { s with sel := f s.sel }

/-- `try: m` with `except Exception: pass`. -/
def quietly (m : Prog PUnit) : Prog PUnit := do
  match ← attempt m with
  | .ok _ => pure ⟨⟩
  | .error e => if e.isException then pure ⟨⟩ else throw e

/-! ## `_send_all` -/

/-- `if conn.tracked: sock.settimeout(0)`. -/
def restore (c : Nat) : Prog PUnit := do
  onlyIf ((← get).sel.tracked c) (settimeout c 0)

/-- A call in blocking mode with the timeout of the configuration, on the selector thread only for
its duration. -/
def switched {α : Type} (cfg : Config) (c : Nat) (call : Prog α) : Prog α := do
  settimeout c cfg.rwTimeout
  tryFinally call (restore c)

/-- The loop of `_send_all`; every round sends something, so it has at most as many rounds as there
are bytes. -/
def sendLoop (cfg : Config) (c : Nat) : Nat → Bytes → Prog PUnit
  | 0, _ => pure ⟨⟩
  | n + 1, view => do
    if view = [] then pure ⟨⟩ else
    match ← attempt (sockSend c) with
    | .ok 0 => throw .connectionAborted
    | .ok (k + 1) => sendLoop cfg c n (view.drop (k + 1))
    | .error .blockingIOError => switched cfg c (sockSendall c)
    | .error e => throw e

/-- `_send_all`. -/
def sendAll (cfg : Config) (c : Nat) (payload : Bytes) : Prog PUnit :=
  sendLoop cfg c payload.length payload

/-! ## Registration -/

/-- `Selector.track`, on the selector thread (`here`) or on another one. -/
def track (c : Nat) (here : Bool) : Prog PUnit := modify fun s =>
  { s with
    sel := if s.shuttingDown then (s.sel.sockClose c).setTracked c false else s.sel.track c here }

/-- `Selector.post_track`. -/
def postTrack (c : Nat) : Prog PUnit := modify fun s =>
  { s with
    sel := if s.shuttingDown then (s.sel.sockClose c).setTracked c false else s.sel.postTrack c }

/-- `Selector.stop_tracking`. -/
def stopTracking (c : Nat) : Prog PUnit := setSel fun sel => sel.stopTracking c

/-- The selector after `BaseHTTPConn.close`; from another thread it is told with an operation. -/
def closedBy (sel : Selector) (c : Nat) (here : Bool) : Selector :=
  if here then sel.closeHere c
  else if sel.tracked c then ((sel.setTracked c false).sockClose c).postClose (sel.fd c)
  else (sel.setTracked c false).sockClose c

/-- `BaseHTTPConn.close`. -/
def closeConn (c : Nat) (here : Bool) : Prog PUnit := setSel fun sel => closedBy sel c here

/-- `settimeout(0)` under `except OSError: pass`. -/
def settimeoutQuietly (c : Nat) : Prog PUnit := do
  match ← attempt (settimeout c 0) with
  | .ok _ => pure ⟨⟩
  | .error e => if e.isOSError then pure ⟨⟩ else throw e

/-- `_maybe_give_back`. -/
def maybeGiveBack (k : Nat) (here : Bool) : Prog PUnit := do
  let x ← getCtx k
  let s ← get
  if s.sel.tracked x.conn then pure ⟨⟩
  else
    onlyIf (s.timeout x.conn ≠ 0) (settimeoutQuietly x.conn)
    track x.conn here

/-- Behind `sock.sendfile`: `if conn.tracked:` the mode goes back, quietly. -/
def restoreQuietly (c : Nat) : Prog PUnit := do
  onlyIf ((← get).sel.tracked c) (settimeoutQuietly c)

/-- `sock.sendfile` in blocking mode. -/
def sockSendfile (cfg : Config) (c : Nat) : Prog PUnit := do
  settimeout c cfg.rwTimeout
  tryFinally (sockSendall c) (restoreQuietly c)

end LocalPost.Http.SocketMode
