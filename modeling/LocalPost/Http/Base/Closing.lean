import LocalPost.Core.ListEntries
import LocalPost.Http.H11.Pipelined
import LocalPost.Http.Writer.Message

/-!
# Connections that end with a response

A request or a response may say that the connection is closed behind the response. h11 closes it in
`finish_response`. On httptools `finish_response` only gives the connection back; what closes it is
the loop of the connection, when it next comes to its head with the whole request received.

Each backend is a transition system of one connection, with the selector thread, which is elsewhere
or somewhere in the connection, and the workers. `Line.Closed` asks of a state that behind the end
the connection is closed and no further request is dispatched, `Line.Ended` that it is closed unless
the selector thread is still in it. On h11 every run has the first. On httptools the runs with the
first are those whose steps meet `Httptools.AtOnce`, the runs with the second those whose steps meet
`Httptools.Orderly` (`closed_behind_end`); `left_registered` is a run without either.
-/

set_option autoImplicit false

namespace LocalPost.Http.Base.Closing

open LocalPost.Core

/-- Where the selector thread is: elsewhere, at the head of `_loop`, inside `feed_data`, in a
handler. -/
inductive Place where
  | away
  | head
  | feeding
  | handler
  deriving DecidableEq, Repr

/-- What both backends have of a connection. `concluded` says that a response that ends the
connection has been finished, `later` that a request has been dispatched behind it; no step reads
them. -/
structure Line where
  place : Place
  isOpen : Bool
  tracked : Bool
  concluded : Bool
  later : Bool
  deriving DecidableEq, Repr

namespace Line

/-- A connection that has been registered. -/
def start : Line := ⟨.away, true, true, false, false⟩

/-- `close`. -/
def close (l : Line) : Line := { l with isOpen := false, tracked := false }

/-- The end of a call of the connection by the selector. -/
def leave (l : Line) : Line := { l with place := .away }

/-- `_maybe_give_back`: a borrowed connection is tracked again, which fails for a closed one. -/
def giveBack (l : Line) (shuttingDown : Bool) : Line :=
  if l.tracked then l
  else if shuttingDown then l.close
  else { l with tracked := l.isOpen }

/-- Closed from the end of the response on, and no request behind it. -/
def Closed (l : Line) : Prop := l.later = false ∧ (l.concluded = true → l.isOpen = false)

/-- Closed by the time the selector thread has left the connection, and no request behind the
end. -/
def Ended (l : Line) : Prop :=
  l.later = false ∧ (l.concluded = true → l.isOpen = false ∨ l.place ≠ .away)

instance (l : Line) : Decidable l.Closed := inferInstanceAs (Decidable (_ ∧ _))

instance (l : Line) : Decidable l.Ended := inferInstanceAs (Decidable (_ ∧ _))

/-- `_maybe_give_back` closes only what it fails to give back. -/
theorem isOpen_giveBack (l : Line) (shuttingDown : Bool) :
    (l.giveBack shuttingDown).isOpen = false ↔
      l.isOpen = false ∨ (l.tracked = false ∧ shuttingDown = true) := by
  unfold giveBack
  cases l.tracked with
  | true => simp
  | false =>
    cases shuttingDown with
    | true => simp [close]
    | false => simp

/-- The rest of the connection stays as it is. -/
theorem giveBack_frame (l : Line) (shuttingDown : Bool) :
    (l.giveBack shuttingDown).concluded = l.concluded ∧ (l.giveBack shuttingDown).later = l.later ∧
      (l.giveBack shuttingDown).place = l.place := by
  unfold giveBack
  split
  · exact ⟨rfl, rfl, rfl⟩
  · split
    · exact ⟨rfl, rfl, rfl⟩
    · exact ⟨rfl, rfl, rfl⟩

end Line

/-- How `recv` ends: it raises `BlockingIOError` or another exception, returns `b""`, or bytes. -/
inductive Recv (α : Type) where
  | blocks
  | fails
  | eof
  | chunk (bytes : α)
  deriving DecidableEq, Repr

/-! ## httptools -/

namespace Httptools

/-- A context: what its request said, what its response said (`closes`), how far the response is,
and whether it is a worker that has it. -/
structure Ctx where
  keepAlive : Bool
  closes : Bool
  started : Bool
  finished : Bool
  onWorker : Bool
  deriving DecidableEq, Repr

/-- The connection; contexts are numbered in the order of their creation, `ctx` is `_ctx`. -/
structure Conn where
  line : Line
  ctxs : List Ctx
  ctx : Option Nat
  deferred : Option Nat
  messageComplete : Bool
  closeAfterResponse : Bool
  responseStarted : Bool
  deriving DecidableEq, Repr

/-- What can happen. The callbacks fire in a feed of the selector thread or in that of a worker
inside `receive`. `feedRaises` is a parser error or a body that is too large, on the selector
thread; `defer` and `borrow` are of the handler that the selector thread has called; `expectEdge` is
the end of `on_headers_complete` for a client that still waits for 100 Continue; `close` is of
another thread, or of the error handling. -/
inductive Act where
  | wake
  | turn (recv : Recv Unit)
  | request (keepAlive : Bool) (worker : Option Nat)
  | messageComplete (worker : Option Nat)
  | feedEnds
  | feedRaises
  | defer
  | borrow
  | expectEdge
  | handlerReturns
  | startResponse (i : Nat) (hasClose : Bool)
  | finishResponse (i : Nat) (shuttingDown : Bool)
  | close
  deriving DecidableEq, Repr

namespace Conn

/-- A fresh connection. -/
def start : Conn := ⟨.start, [], none, none, false, false, false⟩

def modifyCtx (c : Conn) (i : Nat) (f : Ctx → Ctx) : Conn := { c with ctxs := c.ctxs.modify i f }

/-- Worker `i` has an unfinished context. -/
def works (c : Conn) (i : Nat) : Bool := (c.ctxs[i]?).any fun x => x.onWorker && !x.finished

/-- A callback may fire: in a feed of the selector thread, or of a worker. -/
def feeds (c : Conn) : Option Nat → Bool
  | none => c.line.place = .feeding
  | some i => c.works i

/-- Context `i` is with a worker, or with the handler that the selector thread has called. -/
def holds (c : Conn) (i : Nat) : Bool :=
  c.works i || (c.line.place = .handler && c.ctx = some i)

/-- `_reset_for_next_request`. -/
def resetForNextRequest (c : Conn) : Conn :=
  { c with
    ctx := none
    messageComplete := false
    responseStarted := false
    closeAfterResponse := false
    deferred := none }

/-- One turn of `_loop`. -/
def turn (c : Conn) (recv : Recv Unit) : Conn :=
  if !c.line.tracked then { c with line := c.line.leave }
  else if c.messageComplete then
    match c.ctx with
    -- the assertion fails
    | none => { c with line := c.line.leave }
    | some k =>
      if c.closeAfterResponse || (c.ctxs[k]?).any (fun x => !x.keepAlive) then
        { c with line := c.line.close.leave }
      else c.resetForNextRequest
  else
    match recv with
    | .blocks => { c with line := c.line.leave }
    -- the selector logs the exception and keeps the connection
    | .fails => { c with line := c.line.leave }
    | .eof => { c with line := c.line.close.leave }
    | .chunk _ => { c with line := { c.line with place := .feeding } }

/-- `on_headers_complete` up to the call of the handler. -/
def onHeadersComplete (c : Conn) (keepAlive : Bool) (worker : Option Nat) : Conn :=
  { c with
    line := { c.line with
      place := if worker = none then .handler else c.line.place
      later := c.line.later || c.line.concluded }
    ctxs := c.ctxs ++ [⟨keepAlive, false, false, false, worker.isSome⟩]
    ctx := some c.ctxs.length
    messageComplete := false }

/-- `_feed` behind `feed_data`: a deferred dispatch hands the connection to a worker. -/
def feedEnds (c : Conn) : Conn :=
  match c.deferred with
  | none => { c with line := { c.line with place := .head } }
  | some k =>
    { c.modifyCtx k (fun x => { x with onWorker := true }) with
      line := { c.line with place := .head, tracked := false }
      deferred := none }

/-- `start_response`. -/
def startResponse (c : Conn) (i : Nat) (hasClose : Bool) : Conn :=
  match c.ctxs[i]? with
  | none => c
  | some x =>
    { c.modifyCtx i (fun x => { x with started := true, closes := hasClose || !x.keepAlive }) with
      responseStarted := true
      closeAfterResponse := c.closeAfterResponse || (hasClose || !x.keepAlive) }

/-- `finish_response`. -/
def finishResponse (c : Conn) (i : Nat) (shuttingDown : Bool) : Conn :=
  let line := c.line.giveBack shuttingDown
  { c.modifyCtx i (fun x => { x with finished := true }) with
    line := { line with concluded := line.concluded || (c.ctxs[i]?).any (·.closes) } }

/-- One step. -/
def step (c : Conn) : Act → Option Conn
  | .wake =>
    if c.line.place = .away ∧ c.line.isOpen ∧ c.line.tracked then
      some { c with line := { c.line with place := .head } }
    else none
  | .turn recv => if c.line.place = .head then some (c.turn recv) else none
  | .request keepAlive worker =>
    if c.feeds worker then some (c.onHeadersComplete keepAlive worker) else none
  | .messageComplete worker =>
    if c.feeds worker then some { c with messageComplete := true } else none
  | .feedEnds => if c.line.place = .feeding then some c.feedEnds else none
  | .feedRaises =>
    if c.line.place = .feeding then
      some { c with line := c.line.close.leave, deferred := none }
    else none
  | .defer =>
    if c.line.place = .handler then some { c with deferred := c.ctx } else none
  | .borrow =>
    match c.ctx with
    | none => none
    | some k =>
      if c.line.place = .handler ∧ c.line.tracked then
        some { c.modifyCtx k (fun x => { x with onWorker := true }) with
          line := { c.line with tracked := false } }
      else none
  | .expectEdge =>
    if c.line.place = .handler ∧ c.line.tracked ∧ c.responseStarted then
      some { c with closeAfterResponse := true, messageComplete := true }
    else none
  | .handlerReturns =>
    if c.line.place = .handler then
      some { c with line := { c.line with place := .feeding } }
    else none
  | .startResponse i hasClose =>
    if c.holds i ∧ (c.ctxs[i]?).any (fun x => !x.started) then some (c.startResponse i hasClose)
    else none
  | .finishResponse i shuttingDown =>
    if c.holds i ∧ (c.ctxs[i]?).any (fun x => x.started && !x.finished) then
      some (c.finishResponse i shuttingDown)
    else none
  | .close => some { c with line := c.line.close }

end Conn

/-- The backend on one connection. -/
def system : Lts Conn Act where
  init c := c = Conn.start
  step := Conn.step

/-- The condition on a step. No head is complete behind the end; the loop comes to its head behind
the end only with a connection that no worker has taken, and with the whole request received or with
something to receive; a response that ends an open connection is finished while the selector thread
is in the connection, unless the selector is shutting down. -/
def Orderly (c : Conn) : Act → Prop
  | .turn recv =>
    c.line.concluded = true → c.line.isOpen = true →
      c.line.tracked = true ∧
        if c.messageComplete then c.ctx.isSome = true
        else recv = .eof ∨ recv = .chunk ()
  | .request _ _ => c.line.concluded = false
  | .finishResponse i shuttingDown =>
    (c.ctxs[i]?).any (·.closes) = true → c.line.isOpen = true →
      c.line.place ≠ .away ∨ (c.line.tracked = false ∧ shuttingDown = true)
  | _ => True

instance (c : Conn) : ∀ a, Decidable (Orderly c a)
  | .turn _ => inferInstanceAs (Decidable (_ → _ → _ ∧ ite _ _ _))
  | .request _ _ => inferInstanceAs (Decidable (_ = _))
  | .finishResponse _ _ => inferInstanceAs (Decidable (_ → _ → _))
  | .wake => .isTrue trivial
  | .messageComplete _ => .isTrue trivial
  | .feedEnds => .isTrue trivial
  | .feedRaises => .isTrue trivial
  | .defer => .isTrue trivial
  | .borrow => .isTrue trivial
  | .expectEdge => .isTrue trivial
  | .handlerReturns => .isTrue trivial
  | .startResponse _ _ => .isTrue trivial
  | .close => .isTrue trivial

/-- The condition on a step for `Line.Closed`: a response that ends an open connection is finished
by a worker, while the selector is shutting down. -/
def AtOnce (c : Conn) : Act → Prop
  | .request _ _ => c.line.concluded = false
  | .finishResponse i shuttingDown =>
    (c.ctxs[i]?).any (·.closes) = true → c.line.isOpen = true →
      c.line.tracked = false ∧ shuttingDown = true
  | _ => True

/-! ### Steps -/

/-- A response that ends the connection has set `_close_after_response`, which only the next cycle
clears. -/
structure Inv (c : Conn) : Prop where
  closing : ∀ x ∈ c.ctxs, x.closes = true → x.finished = false → c.closeAfterResponse = true
  concluded : c.line.concluded = true → c.closeAfterResponse = true

theorem inv_start : Inv Conn.start where
  closing x hx := by cases hx
  concluded h := by cases h

namespace Inv

variable {c c' : Conn}

/-- A step that leaves the responses and the flag as they are. -/
theorem same (h : Inv c) (hctxs : c'.ctxs = c.ctxs)
    (hflag : c'.closeAfterResponse = c.closeAfterResponse)
    (hover : c'.line.concluded = c.line.concluded) : Inv c' where
  closing x hx := by
    rw [hctxs] at hx
    rw [hflag]
    exact h.closing x hx
  concluded ho := by
    rw [hover] at ho
    rw [hflag]
    exact h.concluded ho

/-- A context that goes to a worker. -/
theorem handOver (h : Inv c) (k : Nat)
    (hctxs : c'.ctxs = c.ctxs.modify k fun x => { x with onWorker := true })
    (hflag : c'.closeAfterResponse = c.closeAfterResponse)
    (hover : c'.line.concluded = c.line.concluded) : Inv c' where
  closing x hx hcloses hunfinished := by
    rw [hctxs] at hx
    rw [hflag]
    obtain ⟨i, hi⟩ := List.mem_iff_getElem?.1 hx
    obtain ⟨y, hy, rfl⟩ := getElem?_modify_iff.1 hi
    split at hcloses
    · rename_i heq
      rw [if_pos heq] at hunfinished
      exact h.closing y (List.mem_of_getElem? hy) hcloses hunfinished
    · rename_i hne
      rw [if_neg hne] at hunfinished
      exact h.closing y (List.mem_of_getElem? hy) hcloses hunfinished
  concluded ho := by
    rw [hover] at ho
    rw [hflag]
    exact h.concluded ho

theorem turn (h : Inv c) (recv : Recv Unit) : Inv (c.turn recv) := by
  unfold Conn.turn
  split
  · exact h.same rfl rfl rfl
  · split
    · split
      · exact h.same rfl rfl rfl
      · split
        · exact h.same rfl rfl rfl
        · -- the next cycle clears the flag, and only where it was not set
          rename_i hkeep
          rw [Bool.or_eq_true, not_or] at hkeep
          exact ⟨fun x hx hcloses hunfinished =>
            absurd (h.closing x hx hcloses hunfinished) hkeep.1,
            fun ho => absurd (h.concluded ho) hkeep.1⟩
    · cases recv with
      | blocks => exact h.same rfl rfl rfl
      | fails => exact h.same rfl rfl rfl
      | eof => exact h.same rfl rfl rfl
      | chunk bytes => exact h.same rfl rfl rfl

theorem onHeadersComplete (h : Inv c) (keepAlive : Bool) (worker : Option Nat) :
    Inv (c.onHeadersComplete keepAlive worker) where
  closing x hx hcloses hunfinished := by
    rcases List.mem_append.1 hx with hold | hnew
    · exact h.closing x hold hcloses hunfinished
    · -- the response of the new context has not been started
      rw [List.mem_singleton.1 hnew] at hcloses
      cases hcloses
  concluded := h.concluded

theorem startResponse (h : Inv c) (i : Nat) (hasClose : Bool) :
    Inv (c.startResponse i hasClose) := by
  unfold Conn.startResponse
  split
  · exact h
  · rename_i x hx
    refine ⟨fun y hy hcloses hunfinished => ?_, fun ho => ?_⟩
    · obtain ⟨k, hk⟩ := List.mem_iff_getElem?.1 hy
      obtain ⟨z, hz, rfl⟩ := getElem?_modify_iff.1 hk
      change (c.closeAfterResponse || (hasClose || !x.keepAlive)) = true
      split at hcloses
      · rename_i heq
        subst heq
        cases hx.symm.trans hz
        have hasked : (hasClose || !x.keepAlive) = true := hcloses
        rw [hasked, Bool.or_true]
      · rename_i hne
        rw [if_neg hne] at hunfinished
        rw [h.closing z (List.mem_of_getElem? hz) hcloses hunfinished, Bool.true_or]
    · change (c.closeAfterResponse || _) = true
      rw [h.concluded ho, Bool.true_or]

/-- The end of a response keeps the invariant. -/
theorem finishResponse (h : Inv c) (i : Nat) (shuttingDown : Bool)
    (hopen : (c.ctxs[i]?).any (fun x => x.started && !x.finished) = true) :
    Inv (c.finishResponse i shuttingDown) := by
  refine ⟨fun y hy hcloses hunfinished => ?_, fun ho => ?_⟩
  · obtain ⟨k, hk⟩ := List.mem_iff_getElem?.1 hy
    obtain ⟨z, hz, rfl⟩ := getElem?_modify_iff.1 hk
    split at hunfinished
    · cases hunfinished
    · rename_i hne
      rw [if_neg hne] at hcloses
      exact h.closing z (List.mem_of_getElem? hz) hcloses hunfinished
  · have hor : ((c.line.giveBack shuttingDown).concluded || (c.ctxs[i]?).any (·.closes)) =
      true := ho
    rw [(c.line.giveBack_frame shuttingDown).1, Bool.or_eq_true] at hor
    rcases hor with hover | hcloses
    · exact h.concluded hover
    · -- it is this response that ends the connection: it was not finished, so the flag is set
      obtain ⟨x, hx, hclosing⟩ := (Option.any_eq_true _ _).1 hcloses
      rw [hx, Option.any_some, Bool.and_eq_true] at hopen
      exact h.closing x (List.mem_of_getElem? hx) hclosing (by simpa using hopen.2)

end Inv

/-- Every step keeps the invariant. -/
theorem step_inv {c c' : Conn} {a : Act} (h : Inv c) (hstep : c.step a = some c') : Inv c' := by
  cases a with
  | wake =>
    obtain ⟨-, ⟨⟩⟩ := Option.ite_none_right_eq_some.1 hstep
    exact h.same rfl rfl rfl
  | turn recv =>
    obtain ⟨-, ⟨⟩⟩ := Option.ite_none_right_eq_some.1 hstep
    exact h.turn recv
  | request keepAlive worker =>
    obtain ⟨-, ⟨⟩⟩ := Option.ite_none_right_eq_some.1 hstep
    exact h.onHeadersComplete keepAlive worker
  | messageComplete worker =>
    obtain ⟨-, ⟨⟩⟩ := Option.ite_none_right_eq_some.1 hstep
    exact h.same rfl rfl rfl
  | feedEnds =>
    obtain ⟨-, ⟨⟩⟩ := Option.ite_none_right_eq_some.1 hstep
    unfold Conn.feedEnds
    split
    · exact h.same rfl rfl rfl
    · rename_i k hk
      exact h.handOver k rfl rfl rfl
  | feedRaises =>
    obtain ⟨-, ⟨⟩⟩ := Option.ite_none_right_eq_some.1 hstep
    exact h.same rfl rfl rfl
  | defer =>
    obtain ⟨-, ⟨⟩⟩ := Option.ite_none_right_eq_some.1 hstep
    exact h.same rfl rfl rfl
  -- A worker takes the connection over, as at the end of the feed.
  | borrow =>
    simp only [Conn.step] at hstep
    split at hstep
    · cases hstep
    · rename_i k hk
      obtain ⟨-, ⟨⟩⟩ := Option.ite_none_right_eq_some.1 hstep
      exact h.handOver k rfl rfl rfl
  | expectEdge =>
    obtain ⟨-, ⟨⟩⟩ := Option.ite_none_right_eq_some.1 hstep
    exact ⟨fun _ _ _ _ => rfl, fun _ => rfl⟩
  | handlerReturns =>
    obtain ⟨-, ⟨⟩⟩ := Option.ite_none_right_eq_some.1 hstep
    exact h.same rfl rfl rfl
  | startResponse i hasClose =>
    obtain ⟨-, ⟨⟩⟩ := Option.ite_none_right_eq_some.1 hstep
    exact h.startResponse i hasClose
  | finishResponse i shuttingDown =>
    obtain ⟨⟨-, hopen⟩, ⟨⟩⟩ := Option.ite_none_right_eq_some.1 hstep
    exact h.finishResponse i shuttingDown hopen
  | close =>
    cases hstep
    exact h.same rfl rfl rfl

section Ended

variable {c : Conn}

/-- Where the selector thread leaves the connection as it is, it is for a closed connection or one
without end. -/
theorem ended_leave (h : c.line.Ended) :
    c.line.leave.Ended ↔ (c.line.concluded = true → c.line.isOpen = false) := by
  constructor
  · intro hended hover
    exact (hended.2 hover).resolve_right fun hne => hne rfl
  · intro hclosed
    exact ⟨h.1, fun hover => .inl (hclosed hover)⟩

theorem ended_close_leave (h : c.line.Ended) : c.line.close.leave.Ended := ⟨h.1, fun _ => .inl rfl⟩

/-- At the head of the loop a connection with the whole request is closed behind the end. -/
theorem turn_closes (hi : Inv c) (hover : c.line.concluded = true)
    (htracked : c.line.tracked = true)
    (hcomplete : c.messageComplete = true) {k : Nat} (hctx : c.ctx = some k) (recv : Recv Unit) :
    (c.turn recv).line.isOpen = false := by
  unfold Conn.turn
  rw [htracked, if_neg (by simp), if_pos hcomplete, hctx]
  dsimp only
  rw [hi.concluded hover, Bool.true_or, if_pos rfl]
  rfl

/-- A turn leaves the line ended exactly if it is orderly. -/
theorem turn_ended (h : c.line.Ended) (hplace : c.line.place = .head) (recv : Recv Unit) :
    (c.turn recv).line.Ended ↔ Orderly c (.turn recv) := by
  have hstays : ∀ l : Line, l.later = c.line.later → l.place ≠ .away → l.Ended :=
    fun l hlater hplace => ⟨hlater.trans h.1, fun _ => .inr hplace⟩
  have hcond : Orderly c (.turn recv) ↔ (c.line.concluded = true → c.line.isOpen = true →
      c.line.tracked = true ∧ if c.messageComplete then c.ctx.isSome = true
        else recv = .eof ∨ recv = .chunk ()) := Iff.rfl
  rw [hcond]
  unfold Conn.turn
  cases htracked : c.line.tracked with
  | false =>
    -- a worker has taken the connection
    refine (ended_leave h).trans ⟨fun hclosed hover hopen => ?_, fun hcond hover => ?_⟩
    · rw [hclosed hover] at hopen
      cases hopen
    · by_contra hopen
      cases (hcond hover (by simpa using hopen)).1
  | true =>
    rw [if_neg (by simp)]
    by_cases hcomplete : c.messageComplete = true
    · rw [if_pos hcomplete, if_pos hcomplete]
      cases hctx : c.ctx with
      | none =>
        -- the message is complete, but there is no context: the loop returns
        refine (ended_leave h).trans ⟨fun hclosed hover hopen => ?_, fun hcond hover => ?_⟩
        · rw [hclosed hover] at hopen
          cases hopen
        · by_contra hopen
          cases (hcond hover (by simpa using hopen)).2
      | some k =>
        -- the cycle has ended: the connection is closed, or the loop goes on with the next one
        dsimp only
        refine iff_of_true ?_ fun _ _ => ⟨rfl, rfl⟩
        split
        · exact ended_close_leave h
        · refine hstays _ rfl ?_
          change c.line.place ≠ .away
          rw [hplace]
          simp
    · -- the request has not been received whole, and `recv` decides
      rw [if_neg hcomplete, if_neg hcomplete]
      have hleave : c.line.leave.Ended ↔
          (c.line.concluded = true → c.line.isOpen = true → False) := by
        refine (ended_leave h).trans (forall_congr' fun _ => ?_)
        rw [imp_false, Bool.not_eq_true]
      cases recv with
      | blocks => simpa using hleave
      | fails => simpa using hleave
      | eof => exact iff_of_true (ended_close_leave h) fun _ _ => ⟨rfl, .inl rfl⟩
      | chunk bytes => exact iff_of_true (hstays _ rfl (by simp)) fun _ _ => ⟨rfl, .inr rfl⟩

/-- The end of a response leaves the line ended exactly if it is orderly. -/
theorem finishResponse_ended (h : c.line.Ended) (i : Nat) (shuttingDown : Bool) :
    (c.finishResponse i shuttingDown).line.Ended ↔ Orderly c (.finishResponse i shuttingDown) := by
  have hline : (c.finishResponse i shuttingDown).line.Ended ↔
      (c.line.concluded = true ∨ (c.ctxs[i]?).any (·.closes) = true →
        (c.line.giveBack shuttingDown).isOpen = false ∨ c.line.place ≠ .away) := by
    unfold Line.Ended Conn.finishResponse
    dsimp only
    obtain ⟨hover, hlater, hplace⟩ := c.line.giveBack_frame shuttingDown
    rw [hover, hlater, hplace, Bool.or_eq_true]
    exact and_iff_right h.1
  rw [hline, Line.isOpen_giveBack]
  constructor
  · intro hafter hcloses hisOpen
    rcases hafter (.inr hcloses) with (hclosed | hshut) | hplace
    · rw [hisOpen] at hclosed
      cases hclosed
    · exact .inr hshut
    · exact .inl hplace
  · rintro hcond (hover | hcloses)
    · exact (h.2 hover).imp_left .inl
    · cases hisOpen : c.line.isOpen with
      | false => exact .inl (.inl rfl)
      | true => exact (hcond hcloses hisOpen).elim .inr fun hshut => .inl (.inr hshut)

/-- What a step does to the line: the loop turns, a head is complete, a response is finished, the
connection is closed; and otherwise it is as it was, and the selector thread does not leave it. -/
inductive LineMoves (c : Conn) : Act → Conn → Prop where
  | turn (recv : Recv Unit) (hplace : c.line.place = .head) : LineMoves c (.turn recv) (c.turn recv)
  | request (keepAlive : Bool) (worker : Option Nat) :
      LineMoves c (.request keepAlive worker) (c.onHeadersComplete keepAlive worker)
  | finishResponse (i : Nat) (shuttingDown : Bool) :
      LineMoves c (.finishResponse i shuttingDown) (c.finishResponse i shuttingDown)
  | closes {a : Act} {c' : Conn} (hlater : c'.line.later = c.line.later)
    (hclosed : c'.line.isOpen = false)
      (horderly : Orderly c a) (hatOnce : AtOnce c a) : LineMoves c a c'
  | keeps {a : Act} {c' : Conn} (hlater : c'.line.later = c.line.later)
      (hover : c'.line.concluded = c.line.concluded) (hopen : c'.line.isOpen = c.line.isOpen)
      (hplace : c'.line.place = c.line.place ∨ c'.line.place ≠ .away) (horderly : Orderly c a)
      (hatOnce : AtOnce c a) : LineMoves c a c'

/-- What a step does to the line of the connection. -/
theorem lineMoves_of_step {a : Act} {c' : Conn} (hstep : c.step a = some c') :
    LineMoves c a c' := by
  -- Each step keeps the line, closes it or goes to one of the three that look at the flags.
  cases a with
  | wake =>
    obtain ⟨-, ⟨⟩⟩ := Option.ite_none_right_eq_some.1 hstep
    exact .keeps rfl rfl rfl (.inr (by simp)) trivial trivial
  | turn recv =>
    obtain ⟨hplace, ⟨⟩⟩ := Option.ite_none_right_eq_some.1 hstep
    exact .turn recv hplace
  | request keepAlive worker =>
    obtain ⟨-, ⟨⟩⟩ := Option.ite_none_right_eq_some.1 hstep
    exact .request keepAlive worker
  | messageComplete worker =>
    obtain ⟨-, ⟨⟩⟩ := Option.ite_none_right_eq_some.1 hstep
    exact .keeps rfl rfl rfl (.inl rfl) trivial trivial
  | feedEnds =>
    obtain ⟨-, ⟨⟩⟩ := Option.ite_none_right_eq_some.1 hstep
    unfold Conn.feedEnds
    -- at the end of a feed the deferred handler is started or the loop goes on
    split
    · exact .keeps rfl rfl rfl (.inr (by simp)) trivial trivial
    · exact .keeps rfl rfl rfl (.inr (by simp)) trivial trivial
  | feedRaises =>
    obtain ⟨-, ⟨⟩⟩ := Option.ite_none_right_eq_some.1 hstep
    exact .closes rfl rfl trivial trivial
  | defer =>
    obtain ⟨-, ⟨⟩⟩ := Option.ite_none_right_eq_some.1 hstep
    exact .keeps rfl rfl rfl (.inl rfl) trivial trivial
  | borrow =>
    simp only [Conn.step] at hstep
    split at hstep
    · cases hstep
    · obtain ⟨-, ⟨⟩⟩ := Option.ite_none_right_eq_some.1 hstep
      exact .keeps rfl rfl rfl (.inl rfl) trivial trivial
  | expectEdge =>
    obtain ⟨-, ⟨⟩⟩ := Option.ite_none_right_eq_some.1 hstep
    exact .keeps rfl rfl rfl (.inl rfl) trivial trivial
  | handlerReturns =>
    obtain ⟨-, ⟨⟩⟩ := Option.ite_none_right_eq_some.1 hstep
    exact .keeps rfl rfl rfl (.inr (by simp)) trivial trivial
  | startResponse i hasClose =>
    obtain ⟨-, ⟨⟩⟩ := Option.ite_none_right_eq_some.1 hstep
    unfold Conn.startResponse
    split
    · exact .keeps rfl rfl rfl (.inl rfl) trivial trivial
    · exact .keeps rfl rfl rfl (.inl rfl) trivial trivial
  | finishResponse i shuttingDown =>
    obtain ⟨-, ⟨⟩⟩ := Option.ite_none_right_eq_some.1 hstep
    exact .finishResponse i shuttingDown
  | close =>
    cases hstep
    exact .closes rfl rfl trivial trivial

/-- A head that is complete is recorded where it stands behind the end. -/
theorem later_onHeadersComplete (hlater : c.line.later = false) (keepAlive : Bool)
    (worker : Option Nat) :
    (c.onHeadersComplete keepAlive worker).line.later = false ↔ c.line.concluded = false := by
  change (c.line.later || c.line.concluded) = false ↔ _
  rw [hlater, Bool.false_or]

/-- A step leaves the line ended exactly if it is orderly. -/
theorem step_ended {a : Act} {c' : Conn} (h : c.line.Ended) (hstep : c.step a = some c') :
    c'.line.Ended ↔ Orderly c a := by
  cases lineMoves_of_step hstep with
  | turn recv hplace => exact turn_ended h hplace recv
  | request keepAlive worker =>
    refine ⟨fun hended => (later_onHeadersComplete h.1 keepAlive worker).1
      hended.1, fun hnone => ?_⟩
    -- before the end the rest of the condition says nothing
    refine ⟨(later_onHeadersComplete h.1 keepAlive worker).2 hnone, fun ho => ?_⟩
    cases hnone.symm.trans ho
  | finishResponse i shuttingDown => exact finishResponse_ended h i shuttingDown
  | closes hlater hclosed horderly =>
    exact iff_of_true ⟨hlater.trans h.1, fun _ => .inl hclosed⟩ horderly
  | keeps hlater hover hopen hplace horderly =>
    refine iff_of_true ⟨hlater.trans h.1, fun ho => ?_⟩ horderly
    rcases hplace with hsame | hstays
    · rw [hopen, hsame]
      exact h.2 (hover.symm.trans ho)
    · exact .inr hstays

/-- A turn of the loop changes nothing of the end, and a closed connection stays closed. -/
theorem turn_line (c : Conn) (recv : Recv Unit) :
    (c.turn recv).line.later = c.line.later ∧ (c.turn recv).line.concluded = c.line.concluded ∧
      (c.line.isOpen = false → (c.turn recv).line.isOpen = false) := by
  unfold Conn.turn
  split
  · exact ⟨rfl, rfl, id⟩
  · split
    · split
      · exact ⟨rfl, rfl, id⟩
      · split
        · exact ⟨rfl, rfl, fun _ => rfl⟩
        · exact ⟨rfl, rfl, id⟩
    · cases recv with
      | blocks => exact ⟨rfl, rfl, id⟩
      | fails => exact ⟨rfl, rfl, id⟩
      | eof => exact ⟨rfl, rfl, fun _ => rfl⟩
      | chunk bytes => exact ⟨rfl, rfl, id⟩

/-- The end of a response leaves the line closed exactly under the condition of `AtOnce`. -/
theorem finishResponse_closed (h : c.line.Closed) (i : Nat) (shuttingDown : Bool) :
    (c.finishResponse i shuttingDown).line.Closed ↔ AtOnce c (.finishResponse i shuttingDown) := by
  have hline : (c.finishResponse i shuttingDown).line.Closed ↔
      (c.line.concluded = true ∨ (c.ctxs[i]?).any (·.closes) = true →
        (c.line.giveBack shuttingDown).isOpen = false) := by
    unfold Line.Closed Conn.finishResponse
    dsimp only
    obtain ⟨hover, hlater, -⟩ := c.line.giveBack_frame shuttingDown
    rw [hover, hlater, Bool.or_eq_true]
    exact and_iff_right h.1
  rw [hline, Line.isOpen_giveBack]
  constructor
  · intro hafter hcloses hisOpen
    rcases hafter (.inr hcloses) with hclosed | hshut
    · rw [hisOpen] at hclosed
      cases hclosed
    · exact hshut
  · rintro hcond (hover | hcloses)
    · exact .inl (h.2 hover)
    · cases hisOpen : c.line.isOpen with
      | false => exact .inl rfl
      | true => exact .inr (hcond hcloses hisOpen)

/-- A step leaves the line closed exactly under the condition of `AtOnce`. -/
theorem step_closed {a : Act} {c' : Conn} (h : c.line.Closed) (hstep : c.step a = some c') :
    c'.line.Closed ↔ AtOnce c a := by
  cases lineMoves_of_step hstep with
  | turn recv =>
    obtain ⟨hlater, hover, hopen⟩ := turn_line c recv
    exact iff_of_true ⟨hlater.trans h.1, fun ho => hopen (h.2 (hover.symm.trans ho))⟩ trivial
  | request keepAlive worker =>
    refine ⟨fun hclosed => (later_onHeadersComplete h.1 keepAlive worker).1
      hclosed.1, fun hnone => ?_⟩
    exact ⟨(later_onHeadersComplete h.1 keepAlive worker).2 hnone, h.2⟩
  | finishResponse i shuttingDown => exact finishResponse_closed h i shuttingDown
  | closes hlater hclosed horderly hatOnce =>
    exact iff_of_true ⟨hlater.trans h.1, fun _ => hclosed⟩ hatOnce
  | keeps hlater hover hopen hplace horderly hatOnce =>
    refine iff_of_true ⟨hlater.trans h.1, fun ho => ?_⟩ hatOnce
    rw [hopen]
    exact h.2 (hover.symm.trans ho)

end Ended

end Httptools

/-! ## h11 -/

namespace H11

open LocalPost.Http.H11.Pipelined (Parser Reply Sent TheirState OurState Token Conn.cycled)
open LocalPost.Http.Writer (connectionName closeValue)

/-- `b"close"` is an element of a `Connection` field, as h11 splits it. -/
def saysClose (headers : List (Bytes × Bytes)) : Bool :=
  headers.any fun header =>
    header.1.lower = connectionName ∧ (header.2.lower.splitOn 44).any fun element =>
      (element.dropWhile isSpace).rdropWhile isSpace = closeValue
where
  isSpace (b : UInt8) : Bool := b = 32 ∨ 9 ≤ b ∧ b ≤ 13

/-- What the documentation of `h11.Connection` says of keep-alive. `http10` is its
`their_http_version`, `closing` says that it holds a request or has sent a response after which the
connection is closed. Such a connection comes to `MUST_CLOSE` where another one comes to `DONE`. -/
structure Documented {π : Type} (P : Parser π) (http10 closing : π → Bool) : Prop where
  asked : ∀ p headers p', P.nextEvent p = (.request headers, p') →
    saysClose headers = true ∨ http10 p' = true → closing p' = true
  told : ∀ p status headers p', P.send p (.response status headers) = some p' →
    saysClose headers = true → closing p' = true
  fed : ∀ p ts, closing p = true → closing (P.receiveData p ts) = true
  eof : ∀ p, closing p = true → closing (P.receiveEof p) = true
  next : ∀ p, closing p = true → closing (P.nextEvent p).2 = true
  sent : ∀ p e p', P.send p e = some p' → closing p = true → closing p' = true
  off : ∀ p, closing p = true → P.theirState p ≠ .done ∧ P.ourState p ≠ .done

/-- The connection. `lent` says that a worker has it, `draining` that a thread is in the loop of
`finish_response`; `ending` that the request or the response of the current exchange ends the
connection. -/
structure Conn (π : Type) where
  line : Line
  parser : π
  lent : Bool
  draining : Bool
  ending : Bool
  deriving DecidableEq, Repr

/-- What can happen. `receive` is one turn of the loop of `ctx.receive`, `respond` is
`start_response` or `send`, `finish` is `finish_response` up to its loop, `drain` one turn of that
loop or the end of the call.
-/
inductive Act where
  | wake
  | turn (recv : Recv (List Token))
  | receive (recv : Recv (List Token))
  | respond (e : Sent)
  | finish
  | drain (shuttingDown : Bool)
  | borrow
  | handlerReturns
  | close
  deriving DecidableEq, Repr

namespace Conn

variable {π : Type} (P : Parser π) (http10 : π → Bool) (max : Nat)

/-- A fresh connection. -/
def start (fresh : π) : Conn π := ⟨.start, fresh, false, false, false⟩

/-- The request is with a worker, or with the handler that the selector thread has called. -/
def holds (c : Conn π) : Bool := c.lent || c.line.place = .handler

/-- The parser has been asked for an event and needs data. -/
def feed (c : Conn π) (p : π) : Recv (List Token) → Conn π
  | .eof => { c with parser := P.receiveEof p }
  | .chunk tokens => { c with parser := P.receiveData p tokens }
  | _ => { c with parser := p }

/-- `_loop` is reported an event; what it does not expect raises, and the selector keeps the
connection. -/
def onEvent (c : Conn π) (recv : Recv (List Token)) : Reply × π → Conn π
  | (.needData, p) =>
    match recv with
    | .blocks => { c with parser := p, line := c.line.leave }
    | .fails => { c with parser := p, line := c.line.leave }
    | recv => c.feed P p recv
  | (.request headers, p) =>
    if (contentLength headers).any (fun n => n > (max : Int)) then
      { c with line := c.line.close.leave }
    else
      { c with
        parser := p
        line := { c.line with place := .handler, later := c.line.later || c.line.concluded }
        ending := saysClose headers || http10 p }
  | (.connectionClosed, _) => { c with line := c.line.close.leave }
  | (.protocolError, _) => { c with line := c.line.close.leave }
  | (_, p) => { c with parser := p, line := c.line.leave }

/-- One turn of `_loop`. -/
def turn (c : Conn π) (recv : Recv (List Token)) : Conn π :=
  if !c.line.tracked then { c with line := c.line.leave }
  else if P.ourState c.parser = .mustClose then { c with line := c.line.close.leave }
  else c.onEvent P http10 max recv (P.nextEvent (Conn.cycled P c.parser))

/-- One turn of the loop of `receive`. -/
def receive (c : Conn π) (recv : Recv (List Token)) : Conn π :=
  if P.theirState c.parser = .done then c
  else
    match P.nextEvent c.parser with
    | (.needData, p) => c.feed P p recv
    | (_, p) => { c with parser := p }

/-- What is sent is a response whose headers end the connection. -/
def asksClose : Sent → Bool
  | .response _ headers => saysClose headers
  | _ => false

/-- `finish_response` returns, with the line as it leaves it. -/
def finished (c : Conn π) (line : Line) : Conn π :=
  { c with
    line := { line with concluded := line.concluded || c.ending }
    lent := false
    draining := false }

/-- One turn of the loop of `finish_response`, or the end of the call. -/
def drain (c : Conn π) (shuttingDown : Bool) : Conn π :=
  if P.theirState c.parser = .done then c.finished (c.line.giveBack shuttingDown)
  else
    match P.nextEvent c.parser with
    | (.needData, p) => { c with parser := p }.finished c.line.close
    | (.paused, p) => { c with parser := p }.finished c.line.close
    | (.connectionClosed, p) => { c with parser := p }.finished c.line.close
    -- the call raises
    | (.protocolError, p) => { c with parser := p, draining := false }
    | (_, p) => { c with parser := p }

/-- One step. -/
def step (c : Conn π) : Act → Option (Conn π)
  | .wake =>
    if c.line.place = .away ∧ c.line.isOpen ∧ c.line.tracked then
      some { c with line := { c.line with place := .head } }
    else none
  | .turn recv => if c.line.place = .head then some (c.turn P http10 max recv) else none
  | .receive recv => if c.holds ∧ c.draining = false then some (c.receive P recv) else none
  | .respond e =>
    if c.holds ∧ c.draining = false then
      (P.send c.parser e).map fun p => { c with parser := p, ending := c.ending || asksClose e }
    else none
  | .finish =>
    if c.holds ∧ c.draining = false then
      (P.send c.parser .endOfMessage).map fun p => { c with parser := p, draining := true }
    else none
  | .drain shuttingDown => if c.draining then some (c.drain P shuttingDown) else none
  | .borrow =>
    if c.line.place = .handler ∧ c.line.tracked then
      some { c with line := { c.line with tracked := false }, lent := true }
    else none
  | .handlerReturns =>
    if c.line.place = .handler then
      if !c.line.tracked then some { c with line := c.line.leave }
      else if P.theirState c.parser ≠ .done then some { c with line := c.line.close.leave }
      else some { c with line := { c.line with place := .head } }
    else none
  | .close => some { c with line := c.line.close }

end Conn

/-- The backend on one connection, with a fresh parser. -/
def system {π : Type} (P : Parser π) (http10 : π → Bool) (max : Nat) (fresh : π) :
    Lts (Conn π) Act where
  init c := c = Conn.start fresh
  step := Conn.step P http10 max

/-- An exchange that ends the connection has switched keep-alive off, a connection behind the end is
closed, and a closed one is not tracked. -/
structure Inv {π : Type} (closing : π → Bool) (c : Conn π) : Prop where
  ending : c.ending = true → closing c.parser = true
  concluded : c.line.concluded = true → c.line.isOpen = false
  untracked : c.line.isOpen = false → c.line.tracked = false
  later : c.line.later = false

section

variable {π : Type} {P : Parser π} {http10 closing : π → Bool} {max : Nat} {c c' : Conn π}

theorem Inv.ended (h : Inv closing c) : c.line.Ended :=
  ⟨h.later, fun hover => .inl (h.concluded hover)⟩

theorem inv_start (fresh : π) : Inv closing (Conn.start fresh) where
  ending h := by cases h
  concluded h := by cases h
  untracked h := by cases h
  later := rfl

namespace Inv

/-- A step of the parser alone. -/
theorem parse (h : Inv closing c) (hparser : closing c.parser = true → closing c'.parser = true)
    (hending : c'.ending = c.ending) (hline : c'.line = c.line) : Inv closing c' where
  ending he := hparser (h.ending (hending.symm.trans he))
  concluded := by
    rw [hline]
    exact h.concluded
  untracked := by
    rw [hline]
    exact h.untracked
  later := by
    rw [hline]
    exact h.later

/-- The selector thread moves on. -/
theorem move (h : Inv closing c) (place : Place) :
    Inv closing { c with line := { c.line with place := place } } :=
  ⟨h.ending, h.concluded, h.untracked, h.later⟩

theorem leave (h : Inv closing c) : Inv closing { c with line := c.line.leave } := h.move .away

/-- The connection is closed. -/
theorem close (h : Inv closing c) : Inv closing { c with line := c.line.close } :=
  ⟨h.ending, fun _ => rfl, fun _ => rfl, h.later⟩

theorem feed (hlib : Documented P http10 closing) (h : Inv closing c) {p : π}
    (hp : closing c.parser = true → closing p = true) (recv : Recv (List Token)) :
    Inv closing (c.feed P p recv) := by
  cases recv with
  | blocks => exact h.parse hp rfl rfl
  | fails => exact h.parse hp rfl rfl
  | eof => exact h.parse (fun hc => hlib.eof _ (hp hc)) rfl rfl
  | chunk tokens => exact h.parse (fun hc => hlib.fed _ _ (hp hc)) rfl rfl

/-- An event of the parser keeps the invariant. -/
theorem onEvent (hlib : Documented P http10 closing) (h : Inv closing c)
    (htracked : c.line.tracked = true) {q p : π} {r : Reply} (hnext : P.nextEvent q = (r, p))
    (hq : closing c.parser = true → closing q = true) (recv : Recv (List Token)) :
    Inv closing (c.onEvent P http10 max recv (r, p)) := by
  have hp : closing c.parser = true → closing p = true := by
    intro hc
    have hkept := hlib.next q (hq hc)
    rw [hnext] at hkept
    exact hkept
  -- the four ways on: the event is kept, the loop is left, the connection is closed
  have hread : Inv closing { c with parser := p } := h.parse hp rfl rfl
  have hleave : Inv closing { c with parser := p, line := c.line.leave } := hread.leave
  have hclose : Inv closing { c with line := c.line.close.leave } := h.close.leave
  cases r with
  | needData =>
    cases recv with
    | blocks => exact hleave
    | fails => exact hleave
    | eof => exact h.feed hlib hp .eof
    | chunk tokens => exact h.feed hlib hp (.chunk tokens)
  | request headers =>
    unfold Conn.onEvent
    dsimp only
    split
    · exact hclose
    · -- the selector still has the connection: it is open, so no response has ended it
      have hopen : c.line.isOpen = true := by
        by_contra hclosed
        rw [h.untracked (by simpa using hclosed)] at htracked
        cases htracked
      have hover : c.line.concluded = false := by
        by_contra hover
        rw [h.concluded (by simpa using hover)] at hopen
        cases hopen
      refine ⟨fun he => hlib.asked q headers p hnext (Bool.or_eq_true_iff.1 he),
        h.concluded, h.untracked, ?_⟩
      change (c.line.later || c.line.concluded) = false
      rw [h.later, hover]
      rfl
  | connectionClosed => exact hclose
  | protocolError => exact hclose
  | paused => exact hleave
  | data bytes => exact hleave
  | endOfMessage => exact hleave

theorem turn (hlib : Documented P http10 closing) (h : Inv closing c) (recv : Recv (List Token)) :
    Inv closing (c.turn P http10 max recv) := by
  unfold Conn.turn
  split
  · exact h.leave
  · rename_i htracked
    split
    · exact h.close.leave
    · -- `start_next_cycle` is for a parser that is done on both sides, which a closing one never is
      have hq : closing c.parser = true →
          closing (LocalPost.Http.H11.Pipelined.Conn.cycled P c.parser) = true := by
        intro hc
        unfold LocalPost.Http.H11.Pipelined.Conn.cycled
        rw [if_neg fun hdone => (hlib.off _ hc).2 hdone.1]
        exact hc
      exact h.onEvent hlib (by simpa using htracked) rfl hq recv

theorem receive (hlib : Documented P http10 closing) (h : Inv closing c)
    (recv : Recv (List Token)) : Inv closing (c.receive P recv) := by
  unfold Conn.receive
  split
  · exact h
  · have hkept := hlib.next c.parser
    split
    · rename_i p hnext
      rw [hnext] at hkept
      exact h.feed hlib hkept recv
    · rename_i r p _ hnext
      rw [hnext] at hkept
      exact h.parse hkept rfl rfl

theorem finished_close (h : Inv closing c) {p : π}
    (hp : closing c.parser = true → closing p = true) :
    Inv closing (Conn.finished { c with parser := p } c.line.close) :=
  ⟨fun he => hp (h.ending he), fun _ => rfl, fun _ => rfl, h.later⟩

theorem drain (hlib : Documented P http10 closing) (h : Inv closing c) (shuttingDown : Bool) :
    Inv closing (c.drain P shuttingDown) := by
  unfold Conn.drain
  split
  · -- the request has been read to its end, so nothing has switched keep-alive off
    rename_i hdone
    have hending : c.ending = false := by
      by_contra hending
      exact (hlib.off _ (h.ending (by simpa using hending))).1 hdone
    unfold Conn.finished Line.giveBack
    rw [hending]
    simp only [Bool.or_false]
    split
    · exact ⟨fun he => (by cases he), h.concluded, h.untracked, h.later⟩
    · split
      · exact ⟨fun he => (by cases he), fun _ => rfl, fun _ => rfl, h.later⟩
      · exact ⟨fun he => (by cases he), h.concluded, fun hclosed => hclosed, h.later⟩
  · have hkept := hlib.next c.parser
    split
    all_goals
      rename_i hnext
      rw [hnext] at hkept
    -- three replies close the connection, one raises, behind the others the loop goes on
    · exact h.finished_close hkept
    · exact h.finished_close hkept
    · exact h.finished_close hkept
    · exact h.parse hkept rfl rfl
    · exact h.parse hkept rfl rfl

end Inv

/-- Every step keeps the flags of the connection in line with the parser. -/
theorem step_inv (hlib : Documented P http10 closing) (h : Inv closing c) {a : Act}
    (hstep : c.step P http10 max a = some c') : Inv closing c' := by
  cases a with
  | wake =>
    obtain ⟨-, ⟨⟩⟩ := Option.ite_none_right_eq_some.1 hstep
    exact h.move .head
  | turn recv =>
    obtain ⟨-, ⟨⟩⟩ := Option.ite_none_right_eq_some.1 hstep
    exact h.turn hlib recv
  | receive recv =>
    obtain ⟨-, ⟨⟩⟩ := Option.ite_none_right_eq_some.1 hstep
    exact h.receive hlib recv
  -- A response that closes the connection has told the parser so.
  | respond e =>
    obtain ⟨-, hmap⟩ := Option.ite_none_right_eq_some.1 hstep
    obtain ⟨p, hsend, rfl⟩ := Option.map_eq_some_iff.1 hmap
    refine ⟨fun he => ?_, h.concluded, h.untracked, h.later⟩
    rcases Bool.or_eq_true_iff.1 he with hold | hnew
    · exact hlib.sent _ _ _ hsend (h.ending hold)
    · cases e with
      | response status headers => exact hlib.told _ _ _ _ hsend hnew
      | informational status => cases hnew
      | data bytes => cases hnew
      | endOfMessage => cases hnew
  | finish =>
    obtain ⟨-, hmap⟩ := Option.ite_none_right_eq_some.1 hstep
    obtain ⟨p, hsend, rfl⟩ := Option.map_eq_some_iff.1 hmap
    exact h.parse (hlib.sent _ _ _ hsend) rfl rfl
  | drain shuttingDown =>
    obtain ⟨-, ⟨⟩⟩ := Option.ite_none_right_eq_some.1 hstep
    exact h.drain hlib shuttingDown
  | borrow =>
    obtain ⟨-, ⟨⟩⟩ := Option.ite_none_right_eq_some.1 hstep
    exact ⟨h.ending, h.concluded, fun _ => rfl, h.later⟩
  | handlerReturns =>
    obtain ⟨-, hstep⟩ := Option.ite_none_right_eq_some.1 hstep
    split at hstep
    · cases hstep
      exact h.leave
    · split at hstep
      · cases hstep
        exact h.close.leave
      · cases hstep
        exact h.move .head
  | close =>
    cases hstep
    exact h.close

end

end H11

/-! ## Both backends -/

/-- For every parser that is as documented, every run of h11 has the connection closed from the end
on. On httptools this holds of exactly the runs whose steps meet `AtOnce`, and with the loop of the
selector thread counted in, of exactly the runs whose steps meet `Orderly`: there, at the head of
the loop with the whole request received, the connection is closed. -/
theorem closed_behind_end {π : Type} (P : LocalPost.Http.H11.Pipelined.Parser π)
    (http10 closing : π → Bool) (max : Nat) (fresh : π) (hlib : H11.Documented P http10 closing) :
    (∀ as c, (H11.system P http10 max fresh).exec (H11.Conn.start fresh) as = some c →
      (H11.system P http10 max fresh).Throughout (fun c => c.line.Closed ∧ c.line.Ended)
        (H11.Conn.start fresh) as) ∧
    (∀ as c, Httptools.system.exec Httptools.Conn.start as = some c →
      (Httptools.system.Throughout (fun c => c.line.Closed) Httptools.Conn.start as ↔
        Httptools.system.Meets Httptools.AtOnce Httptools.Conn.start as) ∧
      (Httptools.system.Throughout (fun c => c.line.Ended) Httptools.Conn.start as ↔
        Httptools.system.Meets Httptools.Orderly Httptools.Conn.start as)) ∧
    (∀ c, Httptools.system.Reachable c → c.line.concluded = true → c.line.tracked = true →
      c.messageComplete = true → c.ctx.isSome = true → ∀ recv,
        (c.turn recv).line.isOpen = false) := by
  refine ⟨fun as c hrun => ?_, fun as c hrun => ⟨?_, ?_⟩,
    fun c hreach hover htracked hcomplete hctx recv => ?_⟩
  · -- on h11 the invariant of the states is the property itself
    refine Lts.throughout_iff_prefix.2 fun pre c' _ hpre => ?_
    have hinv : H11.Inv closing c' :=
      Lts.exec_invariant (I := H11.Inv closing) (fun _ _ _ hi hstep => H11.step_inv hlib hi hstep)
        (H11.inv_start fresh) hpre
    exact ⟨⟨hinv.later, hinv.concluded⟩, hinv.ended⟩
  · exact Lts.throughout_iff_meets (I := fun _ => True) (fun _ _ _ _ _ => trivial)
      (fun _ _ _ _ h hstep => Httptools.step_closed h hstep) trivial
        ⟨rfl, fun h => (by cases h)⟩ hrun
  · exact Lts.throughout_iff_meets (I := fun _ => True) (fun _ _ _ _ _ => trivial)
      (fun _ _ _ _ h hstep => Httptools.step_ended h hstep) trivial
        ⟨rfl, fun h => (by cases h)⟩ hrun
  -- the connection is still registered when the response has ended: the turn that sees it closes
  · obtain ⟨k, hk⟩ := Option.isSome_iff_exists.1 hctx
    have hinv : Httptools.Inv c := by
      refine Lts.invariant (I := Httptools.Inv) (fun c hinit => ?_)
        (fun _ _ _ hi hstep => Httptools.step_inv hi hstep) hreach
      rw [show c = Httptools.Conn.start from hinit]
      exact Httptools.inv_start
    exact Httptools.turn_closes hinv hover htracked hcomplete hk recv

/-! ### Two exchanges -/

/-- A parser that minds keep-alive: with a connection that is to be closed, `DONE` is
`MUST_CLOSE`. -/
structure Minding where
  tape : LocalPost.Http.H11.Pipelined.Tape
  closing : Bool
  deriving DecidableEq, Repr

namespace Minding

open LocalPost.Http.H11.Pipelined (Tape Parser Reply TheirState OurState)

def theirState (p : Minding) : TheirState :=
  if p.closing ∧ p.tape.theirs = .done then .past else p.tape.theirs

def ourState (p : Minding) : OurState :=
  if p.closing ∧ p.tape.ours = .done then .mustClose else p.tape.ours

/-- A request that ends the connection. -/
def asked : Reply → Bool
  | .request headers => H11.saysClose headers
  | _ => false

/-- `next_event`. -/
def nextEvent (p : Minding) : Reply × Minding :=
  if p.theirState = .past ∧ p.tape.tokens ≠ [] then
    (.protocolError, { p with tape := { p.tape with theirs := .failed } })
  else (p.tape.nextEvent.1, ⟨p.tape.nextEvent.2, p.closing || asked p.tape.nextEvent.1⟩)

/-- The parser. -/
def parser : Parser Minding where
  receiveData p ts := { p with tape := Tape.parser.receiveData p.tape ts }
  receiveEof p := { p with tape := Tape.parser.receiveEof p.tape }
  nextEvent := nextEvent
  startNextCycle p := { p with tape := Tape.parser.startNextCycle p.tape }
  send p e := (Tape.parser.send p.tape e).map fun tape => ⟨tape, p.closing || H11.Conn.asksClose e⟩
  theirState := theirState
  ourState := ourState

/-- A fresh parser. -/
def fresh : Minding := ⟨Tape.fresh, false⟩

/-- The parser that minds `Connection: close` behaves as documented. -/
-- The tape with a flag for the first `close` that passes, on either side.
theorem documented : H11.Documented parser (fun _ => false) Minding.closing where
  asked p headers p' h hasked := by
    have hsays : H11.saysClose headers = true := hasked.resolve_right Bool.false_ne_true
    change nextEvent p = (.request headers, p') at h
    unfold nextEvent at h
    split at h
    · cases (Prod.mk.inj h).1
    · obtain ⟨hreply, rfl⟩ := Prod.mk.inj h
      change (p.closing || Minding.asked p.tape.nextEvent.1) = true
      rw [hreply]
      exact Bool.or_eq_true_iff.2 (.inr hsays)
  told p status headers p' h hsays := by
    obtain ⟨tape, -, rfl⟩ := Option.map_eq_some_iff.1 h
    exact Bool.or_eq_true_iff.2 (.inr hsays)
  fed _ _ h := h
  eof _ h := h
  next p h := by
    change (nextEvent p).2.closing = true
    unfold nextEvent
    split
    · exact h
    · exact Bool.or_eq_true_iff.2 (.inl h)
  sent p e p' hsend h := by
    obtain ⟨tape, -, rfl⟩ := Option.map_eq_some_iff.1 hsend
    exact Bool.or_eq_true_iff.2 (.inl h)
  off p h := by
    -- once the flag is set neither side comes to `DONE`
    change theirState p ≠ .done ∧ ourState p ≠ .done
    unfold theirState ourState
    rw [h]
    constructor
    · split
      · simp
      · rename_i hne
        exact fun hdone => hne ⟨rfl, hdone⟩
    · split
      · simp
      · rename_i hne
        exact fun hdone => hne ⟨rfl, hdone⟩

end Minding

/-- A request that asks for close, answered by the handler that the selector thread has called. -/
def h11Exchange : List H11.Act :=
  [.wake, .turn (.chunk [.head [(Writer.connectionName, Writer.closeValue)], .endOfMessage]),
    .turn .blocks,
    .respond (.response 200 []), .finish, .drain false, .drain false, .handlerReturns]

/-- The same on httptools, with the request in one chunk. -/
def httptoolsExchange : List Httptools.Act :=
  [.wake, .turn (.chunk ()), .request false none, .startResponse 0 false, .finishResponse 0 false,
    .handlerReturns, .messageComplete none, .feedEnds, .turn .blocks]

/-- Both connections end closed. -/
theorem ended_exchange :
    ((H11.system Minding.parser (fun _ => false) 1000 Minding.fresh).Throughout
        (fun c => c.line.Closed ∧ c.line.Ended) (H11.Conn.start Minding.fresh) h11Exchange ∧
      ((H11.system Minding.parser (fun _ => false) 1000 Minding.fresh).exec
        (H11.Conn.start Minding.fresh)
        h11Exchange).map (·.line) = some ⟨.away, false, false, true, false⟩) ∧
    Httptools.system.Throughout (fun c => c.line.Ended) Httptools.Conn.start httptoolsExchange ∧
      (Httptools.system.exec Httptools.Conn.start httptoolsExchange).map (·.line) =
        some ⟨.away, false, false, true, false⟩ := by
  have hrun : ((H11.system Minding.parser (fun _ => false) 1000 Minding.fresh).exec
      (H11.Conn.start Minding.fresh) h11Exchange).isSome := by decide
  have hrun' : (Httptools.system.exec Httptools.Conn.start httptoolsExchange).isSome := by decide
  obtain ⟨hclosed, hended, -⟩ :=
    closed_behind_end Minding.parser (fun _ => false) Minding.closing 1000
      Minding.fresh Minding.documented
  exact ⟨⟨hclosed _ _ (Option.some_get hrun).symm, by decide⟩,
    (hended _ _ (Option.some_get hrun').symm).2.2 (by decide), by decide⟩

/-- The handler leaves the request to a worker, which finishes the response when the selector thread
is back in `select`. -/
def pooledExchange : List Httptools.Act :=
  [.wake, .turn (.chunk ()), .request false none, .defer, .handlerReturns, .messageComplete none,
    .feedEnds, .turn .blocks, .startResponse 0 false, .finishResponse 0 false]

/-- The connection is registered again, behind the response that ends it. -/
theorem left_registered :
    ¬ Httptools.system.Throughout (fun c => c.line.Ended) Httptools.Conn.start pooledExchange ∧
      (Httptools.system.exec Httptools.Conn.start pooledExchange).map (·.line) =
        some ⟨.away, true, true, true, false⟩ := by
  have hrun : (Httptools.system.exec Httptools.Conn.start pooledExchange).isSome := by decide
  have hopen : ∀ c ∈ Httptools.system.exec Httptools.Conn.start pooledExchange,
    ¬ c.line.Ended := by decide
  obtain ⟨c, hc⟩ := Option.isSome_iff_exists.1 hrun
  exact ⟨fun h => hopen c hc (Lts.throughout_iff_prefix.1 h _ _ (List.prefix_refl _) hc), by decide⟩

end LocalPost.Http.Base.Closing
