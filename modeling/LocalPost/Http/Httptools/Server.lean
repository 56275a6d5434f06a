import LocalPost.Core.Lts
import LocalPost.Http.Httptools.Stream

/-!
# The httptools server on one connection

`Server` is the connection with the contexts it has created, the parser callbacks its peer has sent
and nobody has received yet, and the feed in progress: a feed is started by the selector thread
(`recv`) or by a worker inside `receive`, fires its callbacks one by one and ends with what `_feed`
does after `feed_data`. A handler answers inline, or is deferred to the pool and then runs on a
worker, where it may read the body, start its response and finish it.

`stream` is not part of the server: it follows the same callbacks without the slots of the
connection. The peer may cut its last request; a FIN that the handler meets inside a body is not a
step here.
-/

set_option autoImplicit false

namespace LocalPost.Http.Httptools

open LocalPost.Core

/-- A context is waiting for the end of the feed, on a worker, or has finished its response. -/
inductive Phase where
  | deferred
  | running
  | finished
  deriving DecidableEq, Repr

/-- `_HTTPReqCtx`. `got` is what `receive` has returned, `sawEom` that it has returned `b""`,
`raised` that it has raised `BodyTooLarge`; `closes` says that the response, or an `Expect` answered
without the body, ends the connection; `msg` is the number of its request in the stream. -/
structure Ctx where
  request : Request
  expect100 : Bool
  keepAlive : Bool
  continueSent : Bool
  started : Bool
  closes : Bool
  phase : Phase
  got : Bytes
  sawEom : Bool
  raised : Bool
  msg : Nat
  deriving DecidableEq, Repr

/-- A response on the wire: that of a context, or the canned 413. -/
inductive Answer where
  | of (k : Nat)
  | tooLarge
  deriving DecidableEq, Repr

/-- What the handler does when it is called: a whole response inline, which may carry
`Connection: close`, or a deferred dispatch to the pool. -/
inductive Handling where
  | inline (hasClose : Bool)
  | pool
  deriving DecidableEq, Repr

/-- The server on one connection. `feed` is the feed in progress: the worker that runs it (`none` is
the selector thread) and the callbacks that have not fired yet. `gone` is set by the peer's FIN. -/
structure Server where
  conn : Conn
  ctxs : List Ctx
  answers : List Answer
  feed : Option (Option Nat × List Callback)
  wire : List Callback
  gone : Bool
  stream : Stream
  deriving DecidableEq, Repr

namespace Server

/-- A fresh connection whose peer sends `wire`. -/
def start (wire : List Callback) : Server :=
  ⟨.start, [], [], none, wire, false, ⟨.idle, [], [], []⟩⟩

/-- The callbacks that have not fired yet. -/
def pending (s : Server) : List Callback := (s.feed.map (·.2)).getD [] ++ s.wire

def modifyCtx (s : Server) (k : Nat) (f : Ctx → Ctx) : Server :=
  { s with ctxs := s.ctxs.modify k f }

/-- `start_response` on context `k`. The header bytes go out with the first chunk, the first bytes
of the response count as the answer. -/
def startResponse (s : Server) (k : Nat) (hasClose : Bool) : Server :=
  match s.ctxs[k]? with
  | none => s
  | some c =>
    let closes := hasClose || !c.keepAlive
    { s.modifyCtx k (fun c => { c with started := true, closes := c.closes || closes }) with
      conn := { s.conn with
        responseStarted := true, closeAfterResponse := s.conn.closeAfterResponse || closes }
      answers := s.answers ++ [.of k] }

/-- `finish_response` on context `k` with `_maybe_give_back`: a borrowed connection is tracked
again. -/
def finishResponse (s : Server) (k : Nat) : Server :=
  { s.modifyCtx k (fun c => { c with phase := .finished }) with
    conn := { s.conn with tracked := true } }

/-- A declared length above the limit. -/
def oversizeLength (max : Nat) (headers : List (Bytes × Bytes)) : Option Int :=
  (contentLength headers).filter fun n => n > max

/-- The context for the head just parsed, with the slots of the connection cleared for it. -/
def newCtx (s : Server) (method version : Bytes) (keepAlive : Bool) : Server :=
  { s with
    conn := { s.conn with
      ctx := some s.ctxs.length, bodyBuf := [], bodyEom := false, messageComplete := false }
    ctxs := s.ctxs ++ [{
      request := Request.ofTarget method s.conn.cur.target s.conn.cur.headers version
      expect100 := s.conn.cur.expect100
      keepAlive := keepAlive
      continueSent := false
      started := false
      closes := false
      phase := .deferred
      got := []
      sawEom := false
      raised := false
      msg := s.stream.msgs.length - 1 }] }

/-- The handler call in `on_headers_complete`. -/
def handle (s : Server) (k : Nat) : Handling → Server
  | .inline hasClose =>
    ((s.startResponse k hasClose).finishResponse k).modifyCtx k fun c =>
      { c with closes := c.closes || c.expect100 }
  | .pool => { s with conn := { s.conn with deferred := some k } }

/-- An inline answer starts and finishes the response of the new context. -/
theorem handle_inline (r : Server) (method version : Bytes) (keepAlive hasClose : Bool) :
    (r.newCtx method version keepAlive).handle r.ctxs.length (.inline hasClose) = { r with
      conn := { r.conn with
        ctx := some r.ctxs.length, bodyBuf := [], bodyEom := false, messageComplete := false
        responseStarted := true, tracked := true
        closeAfterResponse := r.conn.closeAfterResponse || (hasClose || !keepAlive) }
      ctxs := r.ctxs ++ [{
        request := Request.ofTarget method r.conn.cur.target r.conn.cur.headers version
        expect100 := r.conn.cur.expect100
        keepAlive := keepAlive
        continueSent := false
        started := true
        closes := hasClose || !keepAlive || r.conn.cur.expect100
        phase := .finished
        got := []
        sawEom := false
        raised := false
        msg := r.stream.msgs.length - 1 }]
      answers := r.answers ++ [.of r.ctxs.length] } := by
  simp only [handle, newCtx, Server.startResponse, Server.finishResponse, modifyCtx,
    List.getElem?_concat_length, modify_concat, Bool.false_or]

/-- The end of `on_headers_complete`: a response was started on a tracked connection while the
client still waits for `100 Continue`. No handler called here has sent it. -/
def expectEdge (s : Server) : Server :=
  if s.conn.tracked && s.conn.responseStarted && s.conn.cur.expect100 then
    { s with conn := { s.conn with closeAfterResponse := true, messageComplete := true } }
  else s

/-- `on_headers_complete`. -/
def onHeadersComplete (max : Nat) (s : Server) (method version : Bytes) (keepAlive : Bool)
    (h : Handling) : Server :=
  let c := s.conn.flattenTarget
  match oversizeLength max c.cur.headers with
  | some n =>
    { s with conn := { c with bodyTooLarge := some n, cur := { c.cur with oversize := true } } }
  | none =>
    ((({ s with conn := c }.newCtx method version keepAlive).handle s.ctxs.length h)).expectEdge

/-- One callback on the server; `h` is what the handler does if it is called. -/
def onCallback (max : Nat) (s : Server) (h : Handling) : Callback → Server
  | .messageBegin => { s with conn := s.conn.onMessageBegin }
  | .url url => { s with conn := s.conn.onUrl url }
  | .header name value => { s with conn := s.conn.onHeader name value }
  | .headersComplete method version keepAlive => s.onHeadersComplete max method version keepAlive h
  | .body data => { s with conn := s.conn.onBody max data }
  | .messageComplete => { s with conn := s.conn.onMessageComplete }

/-- The next callback of the feed in progress fires. -/
def fire (max : Nat) (s : Server) (h : Handling) : Option Server :=
  match s.feed with
  | some (who, cb :: rest) =>
    some ({ s with feed := some (who, rest), stream := s.stream.observe cb }.onCallback max h cb)
  | _ => none

/-- `_feed` after `feed_data`, without a parser error. On the selector thread `BodyTooLarge` goes to
`__call__`, which answers 413 unless a response was started and closes; on a worker it goes to the
handler. -/
def feedEnd (s : Server) : Option Server :=
  match s.feed with
  | some (who, []) =>
    match s.conn.bodyTooLarge with
    | some _ =>
      let c := { s.conn with bodyTooLarge := none, deferred := none }
      match who with
      | none => some { s with
          feed := none
          conn := c.close
          answers := if c.responseStarted then s.answers else s.answers ++ [.tooLarge] }
      | some i => some ({ s with feed := none, conn := c }.modifyCtx i fun c =>
          { c with raised := true })
    | none =>
      match s.conn.deferred with
      | some k => some ({ s with
          feed := none
          conn := { s.conn with deferred := none, tracked := false } }.modifyCtx k fun c =>
            { c with phase := .running })
      | none => some { s with feed := none }
  | _ => none

/-- `_loop` receives a chunk with the next `n` callbacks. -/
def recv (s : Server) (n : Nat) : Option Server :=
  if s.conn.tracked ∧ s.conn.messageComplete = false ∧ s.feed = none ∧ n ≤ s.wire.length then
    some { s with feed := some (none, s.wire.take n), wire := s.wire.drop n }
  else none

/-- `_loop` receives the peer's FIN after everything it has sent. -/
def fin (s : Server) : Option Server :=
  if s.conn.tracked ∧ s.conn.messageComplete = false ∧ s.feed = none ∧ s.wire = [] then
    some { s with conn := s.conn.close, gone := true }
  else none

/-- `_loop` finds a complete message: it closes or rolls into the next request. -/
def roll (s : Server) : Option Server :=
  if s.conn.tracked ∧ s.conn.messageComplete ∧ s.feed = none then
    match s.conn.ctx with
    | none => some s
    | some k =>
      if s.conn.closeAfterResponse || (s.ctxs[k]?).any (fun c => !c.keepAlive) then
        some { s with conn := s.conn.close }
      else some { s with conn := s.conn.resetForNextRequest }
  else none

/-- The handler of context `i` is running on its worker. -/
def isRunning (s : Server) (i : Nat) : Bool := (s.ctxs[i]?).any fun c => c.phase = .running

theorem isRunning_iff {s : Server} {i : Nat} :
    s.isRunning i = true ↔ ∃ c, s.ctxs[i]? = some c ∧ c.phase = .running := by
  simp [isRunning, Option.any_eq_true]

/-- Worker `i` is inside a feed of its own. -/
def isFeeding (s : Server) (i : Nat) : Bool := s.feed.any fun f => f.1 = some i

/-- `receive` begins with the `100 Continue` the client may be waiting for. -/
def sendContinue (c : Ctx) : Ctx := { c with continueSent := c.continueSent || c.expect100 }

/-- `receive` of context `i` finds nothing buffered and receives a chunk with `n` callbacks. -/
def receive (s : Server) (i n : Nat) : Option Server :=
  if s.isRunning i ∧ s.feed = none ∧ s.conn.bodyBuf = [] ∧ s.conn.bodyEom = false ∧
      n ≤ s.wire.length then
    some { s.modifyCtx i sendContinue with
      feed := some (some i, s.wire.take n), wire := s.wire.drop n }
  else none

/-- `receive` of context `i` returns up to `size` buffered bytes. -/
def take (s : Server) (i size : Nat) : Option Server :=
  if s.isRunning i ∧ s.feed = none ∧ s.conn.bodyBuf ≠ [] then
    some { s.modifyCtx i (fun c => { sendContinue c with
        got := c.got ++ s.conn.bodyBuf.take size }) with
      conn := { s.conn with bodyBuf := s.conn.bodyBuf.drop size } }
  else none

/-- `receive` of context `i` returns `b""` at the end of the message. -/
def eof (s : Server) (i : Nat) : Option Server :=
  if s.isRunning i ∧ s.feed = none ∧ s.conn.bodyBuf = [] ∧ s.conn.bodyEom then
    some (s.modifyCtx i fun c => { sendContinue c with sawEom := true })
  else none

end Server

/-- One step: of the selector thread, of the feed in progress, or of worker `i`. -/
inductive Act where
  | recv (n : Nat)
  | fin
  | roll
  | fire (h : Handling)
  | feedEnd
  | receive (i n : Nat)
  | take (i size : Nat)
  | eof (i : Nat)
  | startResponse (i : Nat) (hasClose : Bool)
  | finishResponse (i : Nat)
  deriving DecidableEq, Repr

namespace Server

/-- One step on an open connection. A handler responds once, and not from inside a feed of its
own. -/
def act (max : Nat) (s : Server) : Act → Option Server
  | .recv n => s.recv n
  | .fin => s.fin
  | .roll => s.roll
  | .fire h => s.fire max h
  | .feedEnd => s.feedEnd
  | .receive i n => s.receive i n
  | .take i size => s.take i size
  | .eof i => s.eof i
  | .startResponse i hasClose =>
    if s.isRunning i ∧ s.isFeeding i = false ∧ (s.ctxs[i]?).any (fun c => !c.started) then
      some (s.startResponse i hasClose)
    else none
  | .finishResponse i =>
    if s.isRunning i ∧ s.isFeeding i = false ∧ (s.ctxs[i]?).any (fun c => c.started) then
      some (s.finishResponse i)
    else none

/-- Nothing happens on a closed connection. -/
def step (max : Nat) (s : Server) (a : Act) : Option Server :=
  if s.conn.isOpen then s.act max a else none

end Server

/-- The server with body limit `max` and a peer that sends any number of requests. -/
def system (max : Nat) : Lts Server Act where
  init s := ∃ wire, valid .idle wire ∧ s = Server.start wire
  step := Server.step max

end LocalPost.Http.Httptools
