import LocalPost.Core.Lts
import LocalPost.Http.Types

/-!
# Pipelined requests on h11, served by the pool

The selector's `_loop` feeds the parser and dispatches one request, the worker serves it and gives
the connection back. The parser is a library: `Documented` is what it says, in terms of what the
bytes that it has been fed complete (`Token`) and that it has not reported. A `recv` returns any
part of the stream, so the parser may hold a whole further request when the worker gives the
connection back. `finish_response` registers the connection again and does not call `_loop`, and the
selector waits for bytes of the client that need not come (`stranded_request`).

A worker may also come to its end while `_loop` is still behind the handler: `track` sets the flag
at once, so `_loop` goes on with the connection, and the `_OpTrack` that the worker has left in the
queue is applied later, whoever has the connection then (`stranded_behind_lateTrack`).

When the selector waits, every request that was received is answered, exactly in the runs whose
steps meet `Redriven` (`none_stranded`).
-/

set_option autoImplicit false

namespace LocalPost.Http.H11.Pipelined

open LocalPost.Core

/-- What the bytes of the peer complete: a head, a byte of the body, the end of the message, a
protocol error. -/
inductive Token where
  | head (headers : List (Bytes × Bytes))
  | body (b : UInt8)
  | endOfMessage
  | malformed
  deriving DecidableEq, Repr

/-- What `next_event` returns, or the `RemoteProtocolError` that it raises. -/
inductive Reply where
  | needData
  | paused
  | request (headers : List (Bytes × Bytes))
  | data (bytes : Bytes)
  | endOfMessage
  | connectionClosed
  | protocolError
  deriving DecidableEq, Repr

/-- What an event reports. -/
def Reply.tokens : Reply → List Token
  | .request headers => [.head headers]
  | .data bytes => bytes.map Token.body
  | .endOfMessage => [.endOfMessage]
  | _ => []

/-- `parser.their_state`: before a head, in a body, `DONE`, another state after the end of a message
(`MUST_CLOSE`, or a switch of protocols is open), after an error or the FIN. -/
inductive TheirState where
  | idle
  | sendBody
  | done
  | past
  | failed
  deriving DecidableEq, Repr

/-- The message of the peer has ended. -/
def TheirState.ended : TheirState → Bool
  | .done => true
  | .past => true
  | _ => false

/-- `parser.our_state`: before the end of the response, `DONE`, `MUST_CLOSE`. -/
inductive OurState where
  | unfinished
  | done
  | mustClose
  deriving DecidableEq, Repr

/-- What `parser.send` is given. -/
inductive Sent where
  | informational (status : Nat)
  | response (status : Nat) (headers : List (Bytes × Bytes))
  | data (bytes : Bytes)
  | endOfMessage
  deriving DecidableEq, Repr

/-- `h11.Connection`; `receive_data(b"")` is `receiveEof`, and `send` may raise. -/
structure Parser (π : Type) where
  receiveData : π → List Token → π
  receiveEof : π → π
  nextEvent : π → Reply × π
  startNextCycle : π → π
  send : π → Sent → Option π
  theirState : π → TheirState
  ourState : π → OurState

/-- The parser reports what it has been fed, in order, and asks for more only when it holds nothing
complete. It reports a request only before a head, so after the end of a message it holds the next
one back until the next cycle. -/
structure Parser.Documented {π : Type} (P : Parser π) (buffer : π → List Token) : Prop where
  fed : ∀ p ts, buffer (P.receiveData p ts) = buffer p ++ ts ∧
    P.theirState (P.receiveData p ts) = P.theirState p ∧ P.ourState
      (P.receiveData p ts) = P.ourState p
  eof : ∀ p, buffer (P.receiveEof p) = buffer p ∧
    P.theirState (P.receiveEof p) = P.theirState p ∧ P.ourState (P.receiveEof p) = P.ourState p
  reports : ∀ p r p', P.nextEvent p = (r, p') → buffer p = r.tokens ++ buffer p'
  needData : ∀ p p', P.nextEvent p = (.needData, p') →
    buffer p = [] ∧ P.theirState p' = P.theirState p
  paused : ∀ p p', P.nextEvent p = (.paused, p') →
    (P.theirState p).ended = true ∧ P.theirState p' = P.theirState p
  request : ∀ p headers p', P.nextEvent p = (.request headers, p') →
    P.theirState p = .idle ∧ P.theirState p' = .sendBody
  data : ∀ p bytes p', P.nextEvent p = (.data bytes, p') →
    P.theirState p = .sendBody ∧ P.theirState p' = .sendBody
  endOfMessage : ∀ p p', P.nextEvent p = (.endOfMessage, p') →
    P.theirState p = .sendBody ∧ (P.theirState p').ended = true
  connectionClosed : ∀ p p', P.nextEvent p = (.connectionClosed, p') → P.theirState p' = .failed
  protocolError : ∀ p p', P.nextEvent p = (.protocolError, p') → P.theirState p' = .failed
  finished : ∀ p, P.ourState p ≠ .unfinished → P.ourState (P.nextEvent p).2 ≠ .unfinished
  cycle : ∀ p, P.theirState p = .done → P.ourState p = .done →
    buffer (P.startNextCycle p) = buffer p ∧ P.theirState (P.startNextCycle p) = .idle
  sent : ∀ p e p', P.send p e = some p' → buffer p' = buffer p ∧
    (P.theirState p' = P.theirState p ∨ (P.theirState p).ended = true ∧
      (P.theirState p').ended = true)
  sentEnd : ∀ p p', P.send p .endOfMessage = some p' → P.ourState p' ≠ .unfinished

/-- The complete requests in the buffer that the parser has still to report: behind the message that
it is in; none behind an error. -/
def Parser.held {π : Type} (P : Parser π) (buffer : π → List Token) (p : π) : Nat :=
  match P.theirState p with
  | .sendBody => (buffer p).count .endOfMessage - 1
  | .failed => 0
  | _ => (buffer p).count .endOfMessage

/-! ## The connection -/

/-- Where the selector thread is: elsewhere, in the body of `_loop`, in the handler that `_loop` has
called or right behind it. -/
inductive Place where
  | away
  | looping
  | called
  deriving DecidableEq, Repr

/-- What is done with a request: there is none; it is served, by a worker or, when the pool has
refused it, by `emit_handler_error` on the selector thread; the loop of `finish_response` takes the
rest of it. -/
inductive Stage where
  | idle
  | serving (inline : Bool)
  | draining (inline : Bool)
  deriving DecidableEq, Repr

/-- How `recv` ends: it raises `BlockingIOError` or another exception, returns `b""`, or bytes. -/
inductive Recv where
  | blocks
  | fails
  | eof
  | chunk (tokens : List Token)
  deriving DecidableEq, Repr

/-- The connection: `tracked`, whether the selector has a key for it, the number of its `_OpTrack`s
in the queue; with what it has received, the headers of the requests that were dispatched, and the
number of those that were answered. -/
structure Conn (π : Type) where
  parser : π
  place : Place
  stage : Stage
  isOpen : Bool
  tracked : Bool
  registered : Bool
  queued : Nat
  received : List Token
  dispatched : List (List (Bytes × Bytes))
  answered : Nat

/-- One step: the selector calls the connection, `_loop` turns once (with the outcomes of `recv` and
of `start_soon`, should it come to them), it goes on behind the handler, the handler's `receive`
turns once, the response goes on or ends, the loop of `finish_response` turns once, the selector
takes an `_OpTrack` from its queue, the connection is closed. -/
inductive Act where
  | wake
  | turn (recv : Recv) (accepted : Bool)
  | resume
  | read (recv : Recv)
  | respond (e : Sent)
  | finish
  | drain (shuttingDown : Bool)
  | applyTrack
  | close
  deriving DecidableEq, Repr

namespace Conn

variable {π : Type} (P : Parser π) (max : Nat)

/-- `close`. -/
def close (c : Conn π) : Conn π := { c with isOpen := false, tracked := false }

/-- The parser is fed. -/
def feed (c : Conn π) (p : π) : Recv → Conn π
  | .eof => { c with parser := P.receiveEof p }
  | .chunk tokens => { c with parser := P.receiveData p tokens, received := c.received ++ tokens }
  | _ => { c with parser := p }

/-- The top of `_loop`: when both sides are done, `start_next_cycle`. -/
def cycled (p : π) : π :=
  if P.ourState p = .done ∧ P.theirState p = .done then P.startNextCycle p else p

/-- `_loop` is reported an event. A request goes to the pool behind `stop_tracking`. An exception
that `__call__` lets through is logged by the selector, which keeps the connection. -/
def onEvent (c : Conn π) (recv : Recv) (accepted : Bool) : Reply × π → Conn π
  | (.needData, p) =>
    match recv with
    | .blocks => { c with parser := p, place := .away }
    | .fails => { c with parser := p, place := .away }
    | recv => c.feed P p recv
  | (.request headers, p) =>
    if (contentLength headers).any (fun n => n > (max : Int)) then c.close
    else
      { c with
        parser := p
        place := .called
        stage := .serving (!accepted)
        tracked := false
        registered := false
        dispatched := c.dispatched ++ [headers] }
  | (.connectionClosed, _) => c.close
  | (.protocolError, _) => c.close
  | (_, p) => { c with parser := p, place := .away }

/-- One turn of `_loop`. -/
def turn (c : Conn π) (recv : Recv) (accepted : Bool) : Option (Conn π) :=
  if c.place = .looping then
    if P.ourState c.parser = .mustClose then some c.close
    else some (c.onEvent P max recv accepted (P.nextEvent (cycled P c.parser)))
  else none

/-- `_loop` behind the handler: it leaves a connection that is borrowed, and goes on with one that
has been given back in the meantime. -/
def resume (c : Conn π) : Option (Conn π) :=
  if c.place = .called ∧ c.stage ≠ .serving true ∧ c.stage ≠ .draining true then
    if c.tracked then
      if P.theirState c.parser = .done then some { c with place := .looping } else some c.close
    else some { c with place := .away }
  else none

/-- One turn of the handler's `receive`. -/
def read (c : Conn π) (recv : Recv) : Option (Conn π) :=
  if c.stage = .serving false then
    if P.theirState c.parser = .done then some c
    else
      match P.nextEvent c.parser with
      | (.needData, p) => some (c.feed P p recv)
      | (_, p) => some { c with parser := p }
  else none

/-- `start_response` and `send`. -/
def respond (c : Conn π) (e : Sent) : Option (Conn π) :=
  match c.stage with
  | .serving _ => (P.send c.parser e).map fun p => { c with parser := p }
  | _ => none

/-- `finish_response` up to its loop. -/
def finish (c : Conn π) : Option (Conn π) :=
  match c.stage with
  | .serving inline =>
    (P.send c.parser .endOfMessage).map fun p => { c with parser := p, stage := .draining inline }
  | _ => none

/-- `track` of a borrowed connection: on the selector thread it registers it, a worker leaves an
`_OpTrack` in the queue. -/
def track (c : Conn π) (inline : Bool) : Conn π :=
  if inline then { c with tracked := true, registered := true }
  else { c with tracked := true, queued := c.queued + 1 }

/-- One turn of the loop of `finish_response`, or `_maybe_give_back` after it, which closes the
connection when the selector is shutting down. -/
def drain (c : Conn π) (shuttingDown : Bool) : Option (Conn π) :=
  match c.stage with
  | .draining inline =>
    if P.theirState c.parser = .done then
      if shuttingDown then some c.close
      else some { c.track inline with stage := .idle, answered := c.answered + 1 }
    else
      match P.nextEvent c.parser with
      | (.needData, _) => some c.close
      | (.paused, _) => some c.close
      | (.connectionClosed, _) => some c.close
      | (.protocolError, _) => some c.close
      | (_, p) => some { c with parser := p }
  | _ => none

/-- One step on an open connection. `_loop` looks at `tracked` first, so a call of a borrowed
connection does nothing; the queue is emptied between two calls. -/
def step (c : Conn π) (a : Act) : Option (Conn π) :=
  if c.isOpen then
    match a with
    | .wake =>
      if c.place = .away ∧ c.registered then
        some (if c.tracked then { c with place := .looping } else c)
      else none
    | .turn recv accepted => c.turn P max recv accepted
    | .resume => c.resume P
    | .read recv => c.read P recv
    | .respond e => c.respond P e
    | .finish => c.finish P
    | .drain shuttingDown => c.drain P shuttingDown
    | .applyTrack =>
      if c.place = .away ∧ 0 < c.queued then
        some { c with registered := true, queued := c.queued - 1 }
      else none
    | .close => if c.place = .looping then none else some c.close
  else none

/-- A fresh connection, registered. -/
def start (p : π) : Conn π := ⟨p, .away, .idle, true, true, true, 0, [], [], 0⟩

/-- The selector has a key for the connection, or will have one when it has emptied its queue. -/
def listed (c : Conn π) : Bool := c.registered || 0 < c.queued

end Conn

/-- The backend on one connection, with a fresh parser. -/
def system {π : Type} (P : Parser π) (max : Nat) (fresh : π) : Lts (Conn π) Act where
  init c := c = Conn.start fresh
  step := Conn.step P max

section

variable {π : Type} {P : Parser π} {max : Nat} {buffer : π → List Token} {c c' : Conn π}

/-- When the selector thread is elsewhere and the selector waits for the connection, the parser
holds no complete request that has not been dispatched; and when none is in progress, the requests
that were received completely are those that were dispatched and answered. -/
def NoneStranded (P : Parser π) (buffer : π → List Token) (c : Conn π) : Prop :=
  c.isOpen = true → c.place = .away → c.listed = true →
    P.held buffer c.parser = 0 ∧
      (c.stage = .idle → c.received.count .endOfMessage = c.answered ∧
        c.dispatched.length = c.answered)

/-- The condition on a step. A worker gives the connection back when the parser holds no complete
request, or while the selector thread is still in `_loop` with it. When the selector thread leaves
the connection behind a dispatch and a track from before is in its queue, the parser holds no
complete request behind the dispatched one; and while that track is in the queue or has been
applied, the worker receives none. -/
def Redriven (P : Parser π) (buffer : π → List Token) (c : Conn π) : Act → Prop
  | .drain shuttingDown =>
    c.stage = .draining false → c.place = .away → P.theirState c.parser = .done →
      shuttingDown = false → .endOfMessage ∉ buffer c.parser
  | .resume => c.tracked = false → c.listed = true → P.held buffer c.parser = 0
  | .read (.chunk tokens) =>
    c.place = .away → c.listed = true → (P.nextEvent c.parser).1 = .needData →
      match P.theirState c.parser with
      | .sendBody => tokens.count .endOfMessage ≤ 1
      | .past => tokens.count .endOfMessage = 0
      | _ => True
  | _ => True

/-- Between two requests: the parser is before a head, or both messages have ended. -/
structure Between (P : Parser π) (buffer : π → List Token) (c : Conn π) : Prop where
  state : P.theirState c.parser = .idle ∨ P.theirState c.parser = .done ∧
    P.ourState c.parser ≠ .unfinished
  count : c.received.count .endOfMessage = c.answered + (buffer c.parser).count .endOfMessage
  dispatched : c.dispatched.length = c.answered

/-- During a request: the parser is in its body, or behind its end. -/
structure During (P : Parser π) (buffer : π → List Token) (c : Conn π) : Prop where
  state : P.theirState c.parser = .sendBody ∧
      c.received.count .endOfMessage = c.answered + (buffer c.parser).count .endOfMessage ∨
    (P.theirState c.parser).ended = true ∧
      c.received.count .endOfMessage = c.answered + 1 + (buffer c.parser).count .endOfMessage ∨
    P.theirState c.parser = .failed
  dispatched : c.dispatched.length = c.answered + 1

/-- A connection without a request in progress is tracked. One that is borrowed is not, and the
selector thread is not in the body of `_loop` with it, and behind it when it serves the request
itself. -/
def Inv (P : Parser π) (buffer : π → List Token) (c : Conn π) : Prop :=
  c.isOpen = true →
    match c.stage with
    | .idle => Between P buffer c ∧ c.tracked = true
    | .serving inline => During P buffer c ∧ c.tracked = false ∧ c.place ≠ .looping ∧
        (inline = true → c.place = .called)
    | .draining inline => (During P buffer c ∧ P.ourState c.parser ≠ .unfinished) ∧ c.tracked =
      false ∧
        c.place ≠ .looping ∧ (inline = true → c.place = .called)

/-- The invariant of a connection between two requests. -/
theorem Inv.of_idle (hstage : c.stage = .idle) (h : Between P buffer c)
    (htracked : c.tracked = true) : Inv P buffer c := by
  intro _
  rw [hstage]
  exact ⟨h, htracked⟩

/-- The invariant while a handler has the request. -/
theorem Inv.of_serving {inline : Bool} (hstage : c.stage = .serving inline) (h : During P buffer c)
    (htracked : c.tracked = false) (hplace : c.place ≠ .looping)
    (hinline : inline = true → c.place = .called) : Inv P buffer c := by
  intro _
  rw [hstage]
  exact ⟨h, htracked, hplace, hinline⟩

/-- The invariant in the loop of `finish_response`. -/
theorem Inv.of_draining {inline : Bool} (hstage : c.stage = .draining inline)
    (h : During P buffer c)
    (hours : P.ourState c.parser ≠ .unfinished) (htracked : c.tracked = false)
    (hplace : c.place ≠ .looping)
    (hinline : inline = true → c.place = .called) : Inv P buffer c := by
  intro _
  rw [hstage]
  exact ⟨⟨h, hours⟩, htracked, hplace, hinline⟩

/-- A tracked connection is between two requests. -/
theorem Inv.idle_of_tracked (hi : Inv P buffer c) (hopen : c.isOpen = true)
    (htracked : c.tracked = true) : c.stage = .idle ∧ Between P buffer c := by
  have hinv := hi hopen
  cases hstage : c.stage with
  | idle =>
    rw [hstage] at hinv
    exact ⟨rfl, hinv.1⟩
  | serving inline =>
    rw [hstage] at hinv
    cases htracked.symm.trans hinv.2.1
  | draining inline =>
    rw [hstage] at hinv
    cases htracked.symm.trans hinv.2.1

/-- In the body of `_loop` no handler has the connection. -/
theorem Inv.idle_of_looping (hi : Inv P buffer c) (hopen : c.isOpen = true)
    (hplace : c.place = .looping) : c.stage = .idle ∧ Between P buffer c ∧ c.tracked = true := by
  have hinv := hi hopen
  cases hstage : c.stage with
  | idle =>
    rw [hstage] at hinv
    exact ⟨rfl, hinv⟩
  | serving inline =>
    rw [hstage] at hinv
    exact absurd hplace hinv.2.2.1
  | draining inline =>
    rw [hstage] at hinv
    exact absurd hplace hinv.2.2.1

theorem inv_close : Inv P buffer c.close := fun hopen => by cases hopen

theorem noneStranded_close : NoneStranded P buffer c.close := fun hopen => by cases hopen

theorem not_away (h : c.place ≠ .away) : NoneStranded P buffer c := fun _ haway => absurd haway h

/-- Behind the end of a message every end in the buffer is that of a request to come. -/
theorem held_ended {p : π} (hended : (P.theirState p).ended = true) :
    P.held buffer p = (buffer p).count .endOfMessage := by
  unfold Parser.held
  split
  · rename_i hbody
    rw [hbody] at hended
    cases hended
  · rename_i hfailed
    rw [hfailed] at hended
    cases hended
  · rfl

/-- A connection between two requests, over a parser that holds none. -/
theorem Between.noneStranded (h : Between P buffer c) (hheld : P.held buffer c.parser = 0) :
    NoneStranded P buffer c := by
  refine fun _ _ _ => ⟨hheld, fun _ => ⟨?_, h.dispatched⟩⟩
  have hnone : (buffer c.parser).count .endOfMessage = 0 := by
    rw [Parser.held] at hheld
    rcases h.state with hidle | ⟨hdone, -⟩
    · rw [hidle] at hheld
      exact hheld
    · rw [hdone] at hheld
      exact hheld
  rw [h.count, hnone, Nat.add_zero]

/-- Feeding the parser keeps where it is. -/
theorem During.feed (hP : P.Documented buffer) {p : π} (h : During P buffer { c with parser := p })
    (recv : Recv) :
    During P buffer (c.feed P p recv) := by
  cases recv with
  | blocks => exact h
  | fails => exact h
  | eof =>
    obtain ⟨hbuffer, htheir, -⟩ := hP.eof p
    refine ⟨?_, h.dispatched⟩
    simp only [Conn.feed, hbuffer, htheir]
    exact h.state
  | chunk ts =>
    obtain ⟨hbuffer, htheir, -⟩ := hP.fed p ts
    refine ⟨?_, h.dispatched⟩
    simp only [Conn.feed, hbuffer, htheir, List.count_append]
    rcases h.state with ⟨hstate, hcount⟩ | ⟨hstate, hcount⟩ | hstate
    · exact .inl ⟨hstate, by simp only at hcount; omega⟩
    · exact .inr (.inl ⟨hstate, by simp only at hcount; omega⟩)
    · exact .inr (.inr hstate)

/-- An event inside a request is about that request. -/
theorem During.next (hP : P.Documented buffer) (h : During P buffer c) {r : Reply} {p : π}
    (hnext : P.nextEvent c.parser = (r, p)) : During P buffer { c with parser := p } := by
  have hreports := hP.reports _ _ _ hnext
  have hstate := h.state
  rw [hreports, List.count_append] at hstate
  refine ⟨?_, h.dispatched⟩
  cases r with
  | needData =>
    obtain ⟨-, htheir⟩ := hP.needData _ _ hnext
    rw [← htheir] at hstate
    simpa [Reply.tokens] using hstate
  | paused =>
    obtain ⟨-, htheir⟩ := hP.paused _ _ hnext
    rw [← htheir] at hstate
    simpa [Reply.tokens] using hstate
  | request headers =>
    -- it would have been held back
    obtain ⟨hidle, -⟩ := hP.request _ _ _ hnext
    simp [hidle, TheirState.ended] at hstate
  | data bytes =>
    obtain ⟨htheir, htheir'⟩ := hP.data _ _ _ hnext
    have hnone : (bytes.map Token.body).count .endOfMessage = 0 := List.count_eq_zero.2 (by simp)
    simp only [htheir, Reply.tokens, hnone, TheirState.ended] at hstate
    simp at hstate
    exact .inl ⟨htheir', hstate⟩
  | endOfMessage =>
    obtain ⟨htheir, htheir'⟩ := hP.endOfMessage _ _ hnext
    simp only [htheir, Reply.tokens, List.count_singleton_self, TheirState.ended] at hstate
    simp at hstate
    exact .inr (.inl ⟨htheir', by simp only; omega⟩)
  | connectionClosed => exact .inr (.inr (hP.connectionClosed _ _ hnext))
  | protocolError => exact .inr (.inr (hP.protocolError _ _ hnext))

/-- Sending keeps where the parser is. -/
theorem During.sends (hP : P.Documented buffer) (h : During P buffer c) {e : Sent} {p : π}
    (hsend : P.send c.parser e = some p) : During P buffer { c with parser := p } := by
  obtain ⟨hbuffer, htheir⟩ := hP.sent _ _ _ hsend
  refine ⟨?_, h.dispatched⟩
  simp only [hbuffer]
  rcases htheir with htheir | ⟨hended, hended'⟩
  · rw [htheir]
    exact h.state
  · rcases h.state with ⟨hstate, -⟩ | ⟨-, hcount⟩ | hstate
    · rw [hstate] at hended
      cases hended
    · exact .inr (.inl ⟨hended', hcount⟩)
    · rw [hstate] at hended
      cases hended

/-- At the top of `_loop` a parser between two requests comes before a head. -/
theorem Between.cycled (hP : P.Documented buffer) (h : Between P buffer c)
    (hopen : P.ourState c.parser ≠ .mustClose) :
    P.theirState (Conn.cycled P c.parser) = .idle ∧ buffer (Conn.cycled P c.parser) =
      buffer c.parser := by
  rw [Conn.cycled]
  rcases h.state with hidle | ⟨hdone, hours⟩
  · rw [if_neg]
    · exact ⟨hidle, rfl⟩
    · rintro ⟨-, hdone⟩
      rw [hidle] at hdone
      cases hdone
  · have hours' : P.ourState c.parser = .done := by
      cases hstate : P.ourState c.parser with
      | unfinished => exact absurd hstate hours
      | done => rfl
      | mustClose => exact absurd hstate hopen
    rw [if_pos ⟨hours', hdone⟩]
    exact (hP.cycle _ hdone hours').symm

/-- An event inside a request leaves the requests behind it where they are. -/
theorem During.held_next (hP : P.Documented buffer) (h : During P buffer c) {r : Reply} {p : π}
    (hnext : P.nextEvent c.parser = (r, p)) : P.held buffer p ≤ P.held buffer c.parser := by
  have hreports := hP.reports _ _ _ hnext
  cases r with
  | needData =>
    obtain ⟨-, htheir⟩ := hP.needData _ _ hnext
    rw [Parser.held, Parser.held, hreports, htheir]
    rfl
  | paused =>
    obtain ⟨-, htheir⟩ := hP.paused _ _ hnext
    rw [Parser.held, Parser.held, hreports, htheir]
    rfl
  | request headers =>
    obtain ⟨hidle, -⟩ := hP.request _ _ _ hnext
    have hstate := h.state
    simp [hidle, TheirState.ended] at hstate
  | data bytes =>
    obtain ⟨htheir, htheir'⟩ := hP.data _ _ _ hnext
    have hnone : (bytes.map Token.body).count .endOfMessage = 0 := List.count_eq_zero.2 (by simp)
    rw [Parser.held, Parser.held, hreports, htheir, htheir', List.count_append,
      Reply.tokens, hnone, Nat.zero_add]
  | endOfMessage =>
    -- the first end in the buffer was that of the message itself
    obtain ⟨htheir, hended⟩ := hP.endOfMessage _ _ hnext
    rw [held_ended hended, Parser.held, hreports, htheir, List.count_append, Reply.tokens,
      List.count_singleton_self]
    exact Nat.le_of_eq (Nat.add_sub_cancel_left ..).symm
  | connectionClosed =>
    rw [Parser.held, hP.connectionClosed _ _ hnext]
    exact Nat.zero_le _
  | protocolError =>
    rw [Parser.held, hP.protocolError _ _ hnext]
    exact Nat.zero_le _

/-- Sending leaves what the parser holds. -/
theorem held_sends (hP : P.Documented buffer) {p p' : π} {e : Sent} (hsend : P.send p e = some p') :
    P.held buffer p' = P.held buffer p := by
  obtain ⟨hbuffer, htheir | ⟨hended, hended'⟩⟩ := hP.sent _ _ _ hsend
  · rw [Parser.held, Parser.held, hbuffer, htheir]
  · rw [held_ended hended, held_ended hended', hbuffer]

/-- `_loop` feeds the parser, and leaves the connection only when that holds nothing complete; or it
dispatches. -/
theorem onEvent_spec (hP : P.Documented buffer) (h : Between P buffer c) {p : π}
    (hidle : P.theirState p = .idle) (hbuffer : buffer p = buffer c.parser)
    (hplace : c.place = .looping)
    (hstage : c.stage = .idle) (htracked : c.tracked = true) (recv : Recv) (accepted : Bool) :
    Inv P buffer (c.onEvent P max recv accepted (P.nextEvent p)) ∧
      NoneStranded P buffer (c.onEvent P max recv accepted (P.nextEvent p)) := by
  generalize hnext : P.nextEvent p = event
  obtain ⟨r, p'⟩ := event
  have hreports := hP.reports _ _ _ hnext
  have hcount := h.count
  rw [← hbuffer, hreports, List.count_append] at hcount
  cases r with
  | needData =>
    obtain ⟨hnil, htheir⟩ := hP.needData _ _ hnext
    have hnil' : buffer p' = [] := by
      rw [hnil] at hreports
      exact hreports.symm
    have hidle' : P.theirState p' = .idle := htheir.trans hidle
    have htokens : Reply.needData.tokens = [] := rfl
    rw [hnil', htokens] at hcount
    -- The parser is empty: nothing that came in is left behind while the selector waits.
    have hleaves : Inv P buffer { c with parser := p', place := .away } ∧
        NoneStranded P buffer { c with parser := p', place := .away } := by
      have hbetween : Between P buffer { c with parser := p', place := .away } := by
        refine ⟨.inl hidle', ?_, h.dispatched⟩
        simp only [hnil']
        exact hcount
      refine ⟨.of_idle hstage hbetween htracked, hbetween.noneStranded ?_⟩
      rw [Parser.held, hidle', hnil']
      rfl
    cases recv with
    | blocks => exact hleaves
    | fails => exact hleaves
    | eof =>
      obtain ⟨hfed, htheir', -⟩ := hP.eof p'
      refine ⟨.of_idle hstage ⟨.inl (htheir'.trans hidle'), ?_, h.dispatched⟩ htracked,
        not_away (by simp [Conn.onEvent, Conn.feed, hplace])⟩
      simp only [Conn.onEvent, Conn.feed, hfed, hnil']
      exact hcount
    | chunk ts =>
      obtain ⟨hfed, htheir', -⟩ := hP.fed p' ts
      refine ⟨.of_idle hstage ⟨.inl (htheir'.trans hidle'), ?_, h.dispatched⟩ htracked,
        not_away (by simp [Conn.onEvent, Conn.feed, hplace])⟩
      simp only [Conn.onEvent, Conn.feed, hfed, hnil', List.count_append]
      simp at hcount
      simp
      omega
  | paused =>
    obtain ⟨hended, -⟩ := hP.paused _ _ hnext
    rw [hidle] at hended
    cases hended
  | request headers =>
    obtain ⟨-, htheir⟩ := hP.request _ _ _ hnext
    simp only [Conn.onEvent]
    split
    · exact ⟨inv_close, noneStranded_close⟩
    · refine ⟨fun _ => ⟨⟨.inl ⟨htheir, ?_⟩, ?_⟩, rfl, by simp, fun _ => rfl⟩, not_away (by simp)⟩
      · simpa [Reply.tokens] using hcount
      · simp only [List.length_append, List.length_singleton, h.dispatched]
  -- A parser between two requests reports neither body bytes nor an end of message.
  | data bytes =>
    obtain ⟨hbody, -⟩ := hP.data _ _ _ hnext
    rw [hidle] at hbody
    cases hbody
  | endOfMessage =>
    obtain ⟨hbody, -⟩ := hP.endOfMessage _ _ hnext
    rw [hidle] at hbody
    cases hbody
  | connectionClosed => exact ⟨inv_close, noneStranded_close⟩
  | protocolError => exact ⟨inv_close, noneStranded_close⟩

/-! ## The steps -/

/-- A turn of the handler's `receive`: the selector may wait for the connection meanwhile, when a
track has come too late. -/
theorem read_spec (hP : P.Documented buffer) (hopen : c.isOpen = true) (hi : Inv P buffer c)
    {recv : Recv} (h : c.read P recv = some c') :
    Inv P buffer c' ∧
      (NoneStranded P buffer c →
        (NoneStranded P buffer c' ↔ Redriven P buffer c (.read recv))) := by
  rw [Conn.read] at h
  split at h
  · rename_i hstage
    have hserving := hi hopen
    rw [hstage] at hserving
    obtain ⟨hduring, huntracked, hplace, -⟩ := hserving
    -- the parser has changed, and what it has received
    have hkeeps : ∀ {p : π} {received : List Token},
      During P buffer { c with parser := p, received := received } →
        Inv P buffer { c with parser := p, received := received } := by
      intro p received hdur
      exact .of_serving hstage hdur huntracked hplace (by simp)
    have hle : NoneStranded P buffer c → ∀ {p : π} {received : List Token},
        P.held buffer p ≤ P.held buffer c.parser →
          NoneStranded P buffer { c with parser := p, received := received } := by
      intro hn p received hheld _ haway hlisted
      refine ⟨Nat.le_zero.1 (hheld.trans (Nat.le_of_eq (hn hopen haway hlisted).1)),
        fun hidle => ?_⟩
      cases hstage.symm.trans hidle
    split at h
    · rename_i hdone
      cases h
      refine ⟨hi, fun hn => iff_of_true hn ?_⟩
      cases recv with
      | chunk tokens =>
        intro _ _ _
        rw [hdone]
        trivial
      | _ => trivial
    · split at h
      · rename_i p hnext
        cases h
        have hdur := (hduring.next hP hnext).feed hP recv
        have hheld := hduring.held_next hP hnext
        cases recv with
        | blocks => exact ⟨hkeeps hdur, fun hn => iff_of_true (hle hn hheld) trivial⟩
        | fails => exact ⟨hkeeps hdur, fun hn => iff_of_true (hle hn hheld) trivial⟩
        | eof =>
          obtain ⟨hbuffer, htheir, -⟩ := hP.eof p
          have hsame : P.held buffer (P.receiveEof p) = P.held buffer p := by
            rw [Parser.held, Parser.held, hbuffer, htheir]
          exact ⟨hkeeps hdur, fun hn => iff_of_true (hle hn (hsame.trans_le hheld)) trivial⟩
        | chunk tokens =>
          refine ⟨hkeeps hdur, fun _ => ?_⟩
          -- the parser was empty, so it holds what the chunk completes
          obtain ⟨hnil, htheir⟩ := hP.needData _ _ hnext
          have hreports := hP.reports _ _ _ hnext
          rw [hnil] at hreports
          obtain ⟨hbuffer, htheir', -⟩ := hP.fed p tokens
          rw [show buffer p = [] from hreports.symm, List.nil_append] at hbuffer
          have hfed : P.held buffer (P.receiveData p tokens) = 0 ↔
              match P.theirState c.parser with
              | .sendBody => tokens.count .endOfMessage ≤ 1
              | .past => tokens.count .endOfMessage = 0
              | _ => True := by
            rw [Parser.held, hbuffer, htheir', htheir]
            rcases hduring.state with ⟨hbody, -⟩ | ⟨hended, -⟩ | hfailed
            · rw [hbody]
              exact Nat.sub_eq_zero_iff_le
            · cases hstate : P.theirState c.parser with
              | past => exact Iff.rfl
              | done => exact absurd hstate ‹_›
              | _ =>
                rw [hstate] at hended
                cases hended
            · rw [hfailed]
              exact iff_of_true rfl trivial
          constructor
          · intro hnone haway hlisted _
            exact hfed.1 (hnone hopen haway hlisted).1
          · intro hcond _ haway hlisted
            refine ⟨hfed.2 (hcond haway hlisted (by rw [hnext])), fun hidle => ?_⟩
            cases hstage.symm.trans hidle
      · rename_i r p hneeds hnext
        cases h
        refine ⟨hkeeps (hduring.next hP hnext), fun hn =>
          iff_of_true (hle hn (hduring.held_next hP hnext)) ?_⟩
        cases recv with
        | chunk tokens =>
          intro _ _ hneed
          rw [hnext] at hneed
          exact absurd hneed hneeds
        | _ => trivial
  · cases h

/-- A turn of the loop of `finish_response`, or the hand-back behind it. -/
theorem drain_spec (hP : P.Documented buffer) (hopen : c.isOpen = true) (hi : Inv P buffer c)
    {shuttingDown : Bool} (h : c.drain P shuttingDown = some c') :
    Inv P buffer c' ∧
      (NoneStranded P buffer c →
        (NoneStranded P buffer c' ↔ Redriven P buffer c (.drain shuttingDown))) := by
  rw [Conn.drain] at h
  split at h
  · rename_i inline hstage
    have hdraining := hi hopen
    rw [hstage] at hdraining
    obtain ⟨⟨hduring, hours⟩, huntracked, hplace, hinline⟩ := hdraining
    -- the request side is DONE: `_maybe_give_back`
    split at h
    · rename_i hdone
      split at h
      · rename_i hshut
        cases h
        refine ⟨inv_close, fun _ => iff_of_true noneStranded_close fun _ _ _ hrun => ?_⟩
        rw [hshut] at hrun
        cases hrun
      · rename_i hrun
        cases h
        have hcount : c.received.count .endOfMessage = c.answered + 1 +
            (buffer c.parser).count .endOfMessage := by
          -- the message has ended, so the end of it is no longer in the buffer
          rcases hduring.state with ⟨hbody, -⟩ | ⟨-, hcount⟩ | hfailed
          · rw [hdone] at hbody
            cases hbody
          · exact hcount
          · rw [hdone] at hfailed
            cases hfailed
        -- the selector thread is behind its own handler, and `_loop` goes on with the connection
        cases inline with
        | true =>
          have hbetween : Between P buffer
            { c.track true with stage := .idle, answered := c.answered + 1 } :=
            ⟨.inr ⟨hdone, hours⟩, hcount, hduring.dispatched⟩
          refine ⟨fun _ => ⟨hbetween, rfl⟩, fun _ => iff_of_true (not_away ?_) fun hworker => ?_⟩
          · rw [show ({ c.track true with stage := .idle, answered := c.answered + 1 } :
              Conn π).place = c.place from rfl, hinline rfl]
            simp
          · rw [hstage] at hworker
            cases hworker
        -- a worker: whether the connection is waited for now depends on where `_loop` is
        | false =>
          have hbetween : Between P buffer
            { c.track false with stage := .idle, answered := c.answered + 1 } :=
            ⟨.inr ⟨hdone, hours⟩, hcount, hduring.dispatched⟩
          have hheld : P.held buffer c.parser = (buffer c.parser).count .endOfMessage := by
            rw [Parser.held, hdone]
          refine ⟨fun _ => ⟨hbetween, rfl⟩, fun _ => ?_⟩
          constructor
          · intro hnone _ haway _ _
            have hlisted : (c.registered || decide (0 < c.queued + 1)) = true := by simp
            have hzero : P.held buffer c.parser = 0 := (hnone hopen haway hlisted).1
            rw [hheld] at hzero
            exact List.count_eq_zero.1 hzero
          · intro hcond hopen' haway hlisted
            have hmem := hcond hstage haway hdone (by simpa using hrun)
            exact hbetween.noneStranded
              (hheld.trans (List.count_eq_zero.2 hmem)) hopen' haway hlisted
    -- the request side is not DONE: one more event, or the connection is closed
    · rename_i hdone
      have hcond : Redriven P buffer c (.drain shuttingDown) := fun _ _ ht => absurd ht hdone
      split at h
      · cases h
        exact ⟨inv_close, fun _ => iff_of_true noneStranded_close hcond⟩
      · cases h
        exact ⟨inv_close, fun _ => iff_of_true noneStranded_close hcond⟩
      · cases h
        exact ⟨inv_close, fun _ => iff_of_true noneStranded_close hcond⟩
      · cases h
        exact ⟨inv_close, fun _ => iff_of_true noneStranded_close hcond⟩
      · rename_i r p _ _ _ _ hnext
        cases h
        have hfinished := hP.finished _ hours
        rw [hnext] at hfinished
        refine ⟨.of_draining hstage (hduring.next hP hnext) hfinished huntracked hplace hinline,
          fun hn => iff_of_true (fun _ haway hlisted => ⟨?_, fun hidle => ?_⟩) hcond⟩
        · exact Nat.le_zero.1
            ((hduring.held_next hP hnext).trans (Nat.le_of_eq (hn hopen haway hlisted).1))
        · cases hstage.symm.trans hidle
  · cases h

/-- `_loop` behind the handler. -/
theorem resume_spec (hopen : c.isOpen = true) (hi : Inv P buffer c) (h : c.resume P = some c') :
    Inv P buffer c' ∧ (NoneStranded P buffer c' ↔ Redriven P buffer c .resume) := by
  rw [Conn.resume] at h
  split at h
  · rename_i hcalled
    have hinv := hi hopen
    cases htracked : c.tracked with
    | true =>
      -- what is tracked has been given back, and is between two requests
      rw [htracked, if_pos rfl] at h
      obtain ⟨hidle, hbetween⟩ := hi.idle_of_tracked hopen htracked
      have hcond : Redriven P buffer c .resume := fun huntracked =>
        (by cases htracked.symm.trans huntracked)
      split at h
      · cases h
        exact ⟨.of_idle hidle ⟨hbetween.state, hbetween.count, hbetween.dispatched⟩ rfl,
          iff_of_true (not_away (by simp)) hcond⟩
      · cases h
        exact ⟨inv_close, iff_of_true noneStranded_close hcond⟩
    | false =>
      rw [htracked, if_neg Bool.false_ne_true] at h
      cases h
      have hbusy : c.stage ≠ .idle := by
        intro hidle
        rw [hidle] at hinv
        cases htracked.symm.trans hinv.2
      constructor
      · cases hstage : c.stage with
        | idle => exact absurd hstage hbusy
        | serving inline =>
          rw [hstage] at hinv
          have hworker : inline ≠ true := fun heq => hcalled.2.1 (by rw [hstage, heq])
          exact .of_serving rfl ⟨hinv.1.state, hinv.1.dispatched⟩ rfl (by simp)
            fun heq => absurd heq hworker
        | draining inline =>
          rw [hstage] at hinv
          have hworker : inline ≠ true := fun heq => hcalled.2.2 (by rw [hstage, heq])
          exact .of_draining rfl ⟨hinv.1.1.state, hinv.1.1.dispatched⟩ hinv.1.2 rfl (by simp)
            fun heq => absurd heq hworker
      · constructor
        · exact fun hnone _ hlisted => (hnone hopen rfl hlisted).1
        · exact fun hcond _ _ hlisted => ⟨hcond htracked hlisted, fun hidle => absurd hidle hbusy⟩
  · cases h

/-- A step keeps the invariant, and it leads to a connection that leaves nothing stranded exactly
under the condition. -/
theorem step_spec (hP : P.Documented buffer) (hi : Inv P buffer c) {a : Act}
    (h : c.step P max a = some c') :
    Inv P buffer c' ∧
      (NoneStranded P buffer c → (NoneStranded P buffer c' ↔ Redriven P buffer c a)) := by
  unfold Conn.step at h
  split at h
  · rename_i hopen
    have hinv := hi hopen
    -- The worker's and the handler's steps have lemmas of their own; here are the rest.
    cases a with
    | wake =>
      obtain ⟨⟨haway, hregistered⟩, ⟨⟩⟩ := Option.ite_none_right_eq_some.1 h
      split
      · rename_i htracked
        obtain ⟨hidle, hbetween⟩ := hi.idle_of_tracked hopen htracked
        exact ⟨.of_idle hidle ⟨hbetween.state, hbetween.count, hbetween.dispatched⟩ htracked,
          fun _ => iff_of_true (not_away (by simp)) trivial⟩
      · exact ⟨hi, fun hn => iff_of_true hn trivial⟩
    | turn recv accepted =>
      dsimp only at h
      rw [Conn.turn] at h
      split at h
      · rename_i hplace
        obtain ⟨hidle, hbetween, htracked⟩ := hi.idle_of_looping hopen hplace
        split at h
        · cases h
          exact ⟨inv_close, fun _ => iff_of_true noneStranded_close trivial⟩
        · rename_i hkeeps
          cases h
          -- `_loop` is not away, so nothing is stranded, whatever the event was
          obtain ⟨hfirst, hbuffer⟩ := hbetween.cycled hP hkeeps
          exact (onEvent_spec hP hbetween hfirst hbuffer hplace hidle htracked recv
            accepted).imp_right fun hnone _ => iff_of_true hnone trivial
      · cases h
    | resume => exact (resume_spec hopen hi h).imp_right fun hiff _ => hiff
    | read recv => exact read_spec hP hopen hi h
    | respond e =>
      dsimp only at h
      rw [Conn.respond] at h
      split at h
      · rename_i inline hstage
        obtain ⟨p, hsend, rfl⟩ := Option.map_eq_some_iff.1 h
        rw [hstage] at hinv
        have hsends := hinv.1.sends hP hsend
        refine ⟨.of_serving hstage hsends hinv.2.1 hinv.2.2.1 hinv.2.2.2,
          fun hn => iff_of_true (fun _ haway hlisted => ⟨?_, fun hidle => ?_⟩) trivial⟩
        · exact (held_sends hP hsend).trans (hn hopen haway hlisted).1
        · cases hstage.symm.trans hidle
      · cases h
    | finish =>
      dsimp only at h
      rw [Conn.finish] at h
      split at h
      · rename_i inline hstage
        obtain ⟨p, hsend, rfl⟩ := Option.map_eq_some_iff.1 h
        rw [hstage] at hinv
        have hsends := hinv.1.sends hP hsend
        refine ⟨fun _ => ⟨⟨⟨hsends.state, hsends.dispatched⟩, hP.sentEnd _ _ hsend⟩, hinv.2⟩,
          fun hn =>
            iff_of_true (fun _ haway hlisted => ⟨?_, fun hidle => (by cases hidle)⟩) trivial⟩
        exact (held_sends hP hsend).trans (hn hopen haway hlisted).1
      · cases h
    | drain shuttingDown => exact drain_spec hP hopen hi h
    -- the track registers what was listed by it before
    | applyTrack =>
      obtain ⟨⟨haway, hqueued⟩, ⟨⟩⟩ := Option.ite_none_right_eq_some.1 h
      have hlisted : c.listed = true := by simp [Conn.listed, hqueued]
      refine ⟨fun _ => ?_, fun hn => iff_of_true (fun _ _ _ => hn hopen haway hlisted) trivial⟩
      cases hstage : c.stage with
      | idle =>
        rw [hstage] at hinv
        exact ⟨⟨hinv.1.state, hinv.1.count, hinv.1.dispatched⟩, hinv.2⟩
      | serving inline =>
        rw [hstage] at hinv
        exact ⟨⟨hinv.1.state, hinv.1.dispatched⟩, hinv.2⟩
      | draining inline =>
        rw [hstage] at hinv
        exact ⟨⟨⟨hinv.1.1.state, hinv.1.1.dispatched⟩, hinv.1.2⟩, hinv.2⟩
    | close =>
      dsimp only at h
      split at h
      · cases h
      · cases h
        exact ⟨inv_close, fun _ => iff_of_true noneStranded_close trivial⟩
  · cases h

end

/-- In every run on one connection, whatever the recv chunks and whenever the workers come to their
ends, no request is stranded exactly when no worker gives the connection back over a complete
request that `_loop` will not come to, and none is behind a request over which a track has come too
late. -/
theorem none_stranded {π : Type} {P : Parser π} {max : Nat} {buffer : π → List Token} {fresh : π}
    (hP : P.Documented buffer) (hidle : P.theirState fresh = .idle) (hempty : buffer fresh = [])
    {as : List Act} {c : Conn π} (hrun : (system P max fresh).exec (Conn.start fresh) as = some c) :
    (system P max fresh).Throughout (NoneStranded P buffer) (Conn.start fresh) as ↔
      (system P max fresh).Meets (Redriven P buffer) (Conn.start fresh) as := by
  have hbetween : Between P buffer (Conn.start fresh) := by
    refine ⟨.inl hidle, ?_, rfl⟩
    simp only [Conn.start, hempty]
    rfl
  have hnone : NoneStranded P buffer (Conn.start fresh) := by
    refine hbetween.noneStranded ?_
    rw [Parser.held, show P.theirState (Conn.start fresh).parser = .idle from hidle,
      show buffer (Conn.start fresh).parser = [] from hempty]
    rfl
  exact Lts.throughout_iff_meets (fun _ _ _ hi hstep => (step_spec hP hi hstep).1)
    (fun _ _ _ hi hn hstep => (step_spec hP hi hstep).2 hn) (fun _ => ⟨hbetween, rfl⟩) hnone hrun

/-! ## Two requests -/

/-- A parser of keep-alive requests: the tokens that it holds, whether it was told of the FIN, the
two states. -/
structure Tape where
  tokens : List Token
  eof : Bool
  theirs : TheirState
  ours : OurState
  deriving DecidableEq, Repr

namespace Tape

/-- The bytes of a body at the front, and what follows them. -/
def bodyBytes : List Token → Bytes × List Token
  | .body b :: rest => (b :: (bodyBytes rest).1, (bodyBytes rest).2)
  | rest => ([], rest)

theorem bodyBytes_append (ts : List Token) :
    (bodyBytes ts).1.map Token.body ++ (bodyBytes ts).2 = ts := by
  induction ts with
  | nil => rfl
  | cons token rest ih =>
    cases token with
    | body b => exact congrArg (Token.body b :: ·) ih
    | _ => rfl

/-- `next_event`. -/
def nextEvent (p : Tape) : Reply × Tape :=
  match p.theirs, p.tokens with
  | .failed, _ => (.protocolError, p)
  | .past, _ => (.paused, p)
  | .done, _ :: _ => (.paused, p)
  | .idle, .head headers :: rest =>
    (.request headers, { p with tokens := rest, theirs := .sendBody })
  | .sendBody, .body b :: rest =>
    (.data (bodyBytes (.body b :: rest)).1, { p with tokens := (bodyBytes (.body b :: rest)).2 })
  | .sendBody, .endOfMessage :: rest => (.endOfMessage, { p with tokens := rest, theirs := .done })
  | .sendBody, [] => if p.eof then
    (.protocolError, { p with theirs := .failed }) else (.needData, p)
  | _, [] => if p.eof then (.connectionClosed, { p with theirs := .failed }) else (.needData, p)
  | _, _ :: _ => (.protocolError, { p with theirs := .failed })

/-- The parser. -/
def parser : Parser Tape where
  receiveData p ts := { p with tokens := p.tokens ++ ts }
  receiveEof p := { p with eof := true }
  nextEvent := nextEvent
  startNextCycle p := { p with theirs := .idle, ours := .unfinished }
  send p e :=
    if p.ours = .unfinished then
      some { p with ours := if e = .endOfMessage then .done else .unfinished }
    else none
  theirState := Tape.theirs
  ourState := Tape.ours

/-- A fresh parser. -/
def fresh : Tape := ⟨[], false, .idle, .unfinished⟩

/-- What a reply says of the parser before it and of the parser behind it. -/
def Explains (p p' : Tape) : Reply → Prop
  | .needData => p.tokens = [] ∧ p'.theirs = p.theirs
  | .paused => p.theirs.ended = true ∧ p'.theirs = p.theirs
  | .request _ => p.theirs = .idle ∧ p'.theirs = .sendBody
  | .data _ => p.theirs = .sendBody ∧ p'.theirs = .sendBody
  | .endOfMessage => p.theirs = .sendBody ∧ p'.theirs.ended = true
  | .connectionClosed => p'.theirs = .failed
  | .protocolError => p'.theirs = .failed

/-- A reply takes its tokens from the front of the tape. -/
theorem nextEvent_explains (p : Tape) :
    p.tokens = (nextEvent p).1.tokens ++ (nextEvent p).2.tokens ∧ (nextEvent p).2.ours = p.ours ∧
      Explains p (nextEvent p).2 (nextEvent p).1 := by
  obtain ⟨tokens, eof, theirs, ours⟩ := p
  cases theirs with
  | idle =>
    cases tokens with
    | nil =>
      cases eof with
      | true => exact ⟨rfl, rfl, rfl⟩
      | false => exact ⟨rfl, rfl, rfl, rfl⟩
    | cons token rest =>
      cases token with
      | head headers => exact ⟨rfl, rfl, rfl, rfl⟩
      | body b => exact ⟨rfl, rfl, rfl⟩
      | endOfMessage => exact ⟨rfl, rfl, rfl⟩
      | malformed => exact ⟨rfl, rfl, rfl⟩
  | sendBody =>
    cases tokens with
    | nil =>
      cases eof with
      | true => exact ⟨rfl, rfl, rfl⟩
      | false => exact ⟨rfl, rfl, rfl, rfl⟩
    | cons token rest =>
      cases token with
      | head headers => exact ⟨rfl, rfl, rfl⟩
      | body b => exact ⟨(bodyBytes_append _).symm, rfl, rfl, rfl⟩
      | endOfMessage => exact ⟨rfl, rfl, rfl, rfl⟩
      | malformed => exact ⟨rfl, rfl, rfl⟩
  | done =>
    cases tokens with
    | nil =>
      cases eof with
      | true => exact ⟨rfl, rfl, rfl⟩
      | false => exact ⟨rfl, rfl, rfl, rfl⟩
    | cons token rest => exact ⟨rfl, rfl, rfl, rfl⟩
  | failed => exact ⟨rfl, rfl, rfl⟩
  -- the connection is over
  | _ => exact ⟨rfl, rfl, rfl, rfl⟩

theorem explains_of_eq {p p' : Tape} {r : Reply} (h : nextEvent p = (r, p')) : Explains p p' r := by
  have hexplains := (nextEvent_explains p).2.2
  rw [h] at hexplains
  exact hexplains

/-- The tape is a parser as documented. -/
theorem documented : parser.Documented Tape.tokens where
  -- The tape reports what it has been fed, piece by piece.
  fed _ _ := ⟨rfl, rfl, rfl⟩
  eof _ := ⟨rfl, rfl, rfl⟩
  reports p r p' h := by
    have htokens := (nextEvent_explains p).1
    rw [show nextEvent p = (r, p') from h] at htokens
    exact htokens
  needData _ _ h := explains_of_eq h
  paused _ _ h := explains_of_eq h
  request _ _ _ h := explains_of_eq h
  data _ _ _ h := explains_of_eq h
  endOfMessage _ _ h := explains_of_eq h
  connectionClosed _ _ h := explains_of_eq h
  protocolError _ _ h := explains_of_eq h
  finished p hours := by
    change (nextEvent p).2.ours ≠ .unfinished
    rw [(nextEvent_explains p).2.1]
    exact hours
  cycle _ _ _ := ⟨rfl, rfl⟩
  sent p e p' h := by
    simp only [parser] at h
    split at h
    · cases h
      exact ⟨rfl, .inl rfl⟩
    · cases h
  sentEnd p p' h := by
    simp only [parser] at h
    split at h
    · cases h
      simp [parser]
    · cases h

end Tape

/-- The bytes of a request without a body. -/
def plainRequest : List Token := [.head [], .endOfMessage]

/-- The worker answers the request and gives the connection back. -/
def answer : List Act := [.respond (.response 200 []), .finish, .drain false, .drain false]

instance (a : Act) : ∀ c : Conn Tape, Decidable (Redriven Tape.parser Tape.tokens c a) :=
  match a with
  | .drain _ => fun _ => inferInstanceAs (Decidable (_ → _ → _ → _ → _))
  | .resume => fun _ => inferInstanceAs (Decidable (_ → _ → _))
  | .read (.chunk tokens) => fun c =>
    match h : Tape.parser.theirState c.parser with
    | .sendBody => decidable_of_iff (c.place = .away → c.listed = true →
        (Tape.parser.nextEvent c.parser).1 = .needData → tokens.count .endOfMessage ≤ 1)
        (by simp [Redriven, h])
    | .past => decidable_of_iff (c.place = .away → c.listed = true →
        (Tape.parser.nextEvent c.parser).1 = .needData → tokens.count .endOfMessage = 0)
        (by simp [Redriven, h])
    | .idle => .isTrue (by simp [Redriven, h])
    | .done => .isTrue (by simp [Redriven, h])
    | .failed => .isTrue (by simp [Redriven, h])
  | .read .blocks => fun _ => .isTrue trivial
  | .read .fails => fun _ => .isTrue trivial
  | .read .eof => fun _ => .isTrue trivial
  | .wake => fun _ => .isTrue trivial
  | .turn _ _ => fun _ => .isTrue trivial
  | .respond _ => fun _ => .isTrue trivial
  | .finish => fun _ => .isTrue trivial
  | .applyTrack => fun _ => .isTrue trivial
  | .close => fun _ => .isTrue trivial

/-- Two requests in one chunk, with a worker that gives the connection back before `_loop` looks at
it again. The second one is answered by a slower worker, and both tracks are applied behind it. -/
def quickWorker : List Act :=
  [.wake, .turn (.chunk (plainRequest ++ plainRequest)) true, .turn .blocks true] ++ answer ++
    [.resume, .turn .blocks true, .resume] ++ answer ++ [.applyTrack, .applyTrack]

/-- Both are answered. -/
theorem none_stranded_quickWorker :
    (system Tape.parser 1000 Tape.fresh).Throughout (NoneStranded Tape.parser Tape.tokens)
      (Conn.start Tape.fresh) quickWorker ∧
      ((system Tape.parser 1000 Tape.fresh).exec (Conn.start Tape.fresh) quickWorker).map
      Conn.answered =
        some 2 := by
  have hrun :
      ((system Tape.parser 1000 Tape.fresh).exec (Conn.start Tape.fresh) quickWorker).isSome := by
    decide
  exact ⟨(none_stranded Tape.documented rfl rfl (Option.some_get hrun).symm).2
    (by decide), by decide⟩

/-- Two requests in one chunk, and `_loop` leaves the connection before the worker gives it back. -/
def oneChunk : List Act :=
  [.wake, .turn (.chunk (plainRequest ++ plainRequest)) true, .turn .blocks true, .resume] ++
    answer ++ [.applyTrack]

/-- The second one is in the parser when the selector waits. -/
theorem stranded_request : Tape.parser.Documented Tape.tokens ∧
    ¬ (system Tape.parser 1000 Tape.fresh).Throughout (NoneStranded Tape.parser Tape.tokens)
      (Conn.start Tape.fresh) oneChunk := by
  refine ⟨Tape.documented, fun h => ?_⟩
  have hlast := Lts.throughout_iff_prefix.1 h _ _ (List.prefix_refl _)
    (Option.some_get (show
      ((system Tape.parser 1000 Tape.fresh).exec (Conn.start Tape.fresh) oneChunk).isSome = true
      by decide)).symm
  exact absurd (hlast (by decide) (by decide) (by decide)).1 (by decide)

/-- A quick worker gives the connection back over an empty parser. `_loop` receives two requests and
dispatches the first of them, and then the selector applies the worker's track. -/
def lateTrack : List Act :=
  [.wake, .turn (.chunk plainRequest) true, .turn .blocks true] ++ answer ++
    [.resume, .turn (.chunk (plainRequest ++ plainRequest)) true, .turn .blocks true,
      .resume, .applyTrack]

/-- The selector waits for a connection that a worker has, with the last request in the parser. -/
theorem stranded_behind_lateTrack :
    ∃ c, (system Tape.parser 1000 Tape.fresh).exec (Conn.start Tape.fresh) lateTrack = some c ∧
      c.registered = true ∧ c.tracked = false ∧ ¬ NoneStranded Tape.parser Tape.tokens c :=
  ⟨_, rfl, rfl, rfl, fun h => absurd (h rfl rfl rfl).1 (by decide)⟩

end LocalPost.Http.H11.Pipelined
