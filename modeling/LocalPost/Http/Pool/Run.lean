import LocalPost.Core.Lts
import LocalPost.Core.ListEntries

/-!
# Requests on the worker pool

`dispatcher` takes a connection off the selector and submits `_run_request` for it. The request runs
on a worker: the handler with whatever it does to its context, then the clause for what it raised,
then the `finally` with its look at the cancellation token. `finish_response` gives the connection
back from inside the handler, or from inside the 500 or 413 that a clause emits.

The selector thread calls the connections that are in its map, and stays in `_loop` with one of them
for as long as it is tracked, also when a worker has had it in the meantime. A worker that gives a
connection back leaves an `_OpTrack` in the queue, which the selector applies between two calls.
Those of one connection are all alike, so the queue is a number for each connection.

The connections and the requests are numbered in the order of their creation. A request sends on,
receives from and closes a connection through its context only; `late` records that it did so
without owning it, and `seized` that the selector closed a connection that was borrowed. Steps of
different requests and of the selector interleave in any order.
-/

set_option autoImplicit false

namespace LocalPost.Http.Pool

open LocalPost.Core

/-- The two native backends. -/
inductive Backend where
  | h11
  | httptools
  deriving DecidableEq, Repr

/-- How `start_soon` ends: the task is accepted, or it raises without (the group or the executor is
closed) or with the task left in the queue (no thread could be started for it). -/
inductive Submit where
  | accepted
  | refused
  | queued
  deriving DecidableEq, Repr

/-- What a handler raises, by the clause of `_run_request` that catches it. No clause catches a
`BaseException`. -/
inductive Exc where
  | requestCancelled
  | bodyTooLarge
  | exception
  | baseException
  deriving DecidableEq, Repr

/-- Where a request stands: in the handler, before the clause for what was raised, in the `complete`
of a 500 or 413, before the `finally`, over. -/
inductive Stage where
  | handler
  | raised (e : Exc)
  | emitting
  | cleanup
  | done
  deriving DecidableEq, Repr

/-- A connection, with whether the selector's map has a key for it and the number of its `_OpTrack`s
in the queue. -/
structure Conn where
  tracked : Bool
  isOpen : Bool
  registered : Bool
  queued : Nat
  seized : Bool
  deriving DecidableEq, Repr

namespace Conn

/-- A connection that is accepted: `track` on the selector thread, or `post_track` of an
acceptor. -/
def accepted (here : Bool) : Conn := ⟨true, true, here, if here then 0 else 1, false⟩

/-- `Selector.track` of a borrowed connection, on the selector thread or on a worker. -/
def track (here : Bool) (k : Conn) : Conn :=
  if here then { k with tracked := true, registered := true }
  else { k with tracked := true, queued := k.queued + 1 }

/-- `Selector.stop_tracking`. -/
def stopTracking (k : Conn) : Conn := { k with tracked := false, registered := false }

/-- `BaseHTTPConn.close`. -/
def close (k : Conn) : Conn := { k with tracked := false, isOpen := false }

/-- The selector takes an `_OpTrack` from its queue and applies it: a closed socket cannot be
registered. -/
def applyTrack (k : Conn) : Conn :=
  if k.isOpen then { k with registered := true, queued := k.queued - 1 }
  else { k with tracked := false, queued := k.queued - 1 }

/-- The selector closes the socket without a look at `tracked`. -/
def seize (k : Conn) : Conn := { k.close with seized := k.seized || k.isOpen && !k.tracked }

/-- `_cleanup_stale` with a connection whose deadline has passed, which is answered 408 when a
request of it has begun, and the walk over the map in `shutdown`. -/
def sweep (k : Conn) : Conn := { k.seize with registered := false }

/-- `shutdown` takes an `_OpTrack` from the queue. -/
def discard (k : Conn) : Conn := { k.seize with queued := k.queued - 1 }

end Conn

/-- A request: its connection, whether its task was accepted, `ctx.response_status`, the event of
its `RequestCancel`, and whether it has given the connection back. -/
structure Req where
  conn : Nat
  accepted : Bool
  status : Option Nat
  event : Bool
  stage : Stage
  gaveBack : Bool
  late : Bool
  deriving DecidableEq, Repr

namespace Req

/-- The request holds the borrowed connection `c`. -/
def Owns (r : Req) (c : Nat) : Prop :=
  r.conn = c ∧ r.accepted = true ∧ r.gaveBack = false ∧ r.stage ≠ .done

instance (r : Req) (c : Nat) : Decidable (r.Owns c) := inferInstanceAs (Decidable (_ ∧ _))

/-- The request sends on, receives from or closes its connection. -/
def touch (r : Req) : Req := { r with late := r.late || r.gaveBack || !r.accepted }

end Req

/-- The connections and requests; `shutdown` is the event of `thread_pool_handler`, `looping` the
connection that the selector thread is in `_loop` with, `shuttingDown` the flag of the selector. -/
structure Server where
  conns : List Conn
  reqs : List Req
  shutdown : Bool
  looping : Option Nat
  shuttingDown : Bool
  deriving DecidableEq, Repr

/-- One step: a new connection, a call of one, a dispatch, a close by `_loop`, the end of the call;
an `_OpTrack` is applied, the sweep closes a connection, the selector shuts down, and takes an
`_OpTrack` from its queue then; the shutdown of the service, a cancellation that request `i`
detects; what its handler does; what follows the handler. -/
inductive Act where
  | accept (here : Bool)
  | call (c : Nat)
  | dispatch (c : Nat) (out : Submit) (keeps : Bool)
  | selectorClose (c : Nat)
  | leave
  | applyTrack (c : Nat)
  | sweep (c : Nat)
  | stop
  | discard (c : Nat)
  | shutdown
  | signal (i : Nat)
  | io (i : Nat)
  | pipelined (i : Nat) (out : Submit)
  | startResponse (i status : Nat)
  | finishResponse (i : Nat) (keeps : Bool)
  | raises (i : Nat) (e : Exc)
  | returns (i : Nat)
  | recover (i : Nat)
  | emitFails (i : Nat)
  | cleanup (i : Nat)
  deriving DecidableEq, Repr

namespace Server

/-- `INTERNAL_ERROR_RESPONSE`. -/
def internalErrorStatus : Nat := 500

/-- `PAYLOAD_TOO_LARGE_RESPONSE`. -/
def payloadTooLargeStatus : Nat := 413

/-- `cancel.fired`. -/
def fired (s : Server) (r : Req) : Bool := r.event || s.shutdown

def modifyReq (s : Server) (i : Nat) (f : Req → Req) : Server :=
  { s with reqs := s.reqs.modify i f }

/-- Request `i` changes, and its connection `c` with it. -/
def modifyBoth (s : Server) (i : Nat) (f : Req → Req) (c : Nat) (g : Conn → Conn) : Server :=
  { s with conns := s.conns.modify c g, reqs := s.reqs.modify i f }

/-- The connection after `dispatcher`. On h11 the exception of a failed submission reaches the
`except` of `_loop`, and `emit_handler_error` gives the connection back or closes it; on httptools
the submission is made after the parser's feed, and its exception leaves `__call__`. -/
def dispatched (b : Backend) (out : Submit) (keeps : Bool) (k : Conn) : Conn :=
  match b, out with
  | _, .accepted => k.stopTracking
  | .h11, _ => if keeps then k.stopTracking.track true else k.stopTracking.close
  | .httptools, _ => k.stopTracking

/-- The request a submission leaves in the executor; on h11 the 500 for a failed one has gone out
through its context. -/
def submitted (b : Backend) (out : Submit) (c : Nat) : List Req :=
  match out with
  | .accepted => [⟨c, true, none, false, .handler, false, false⟩]
  | .refused => []
  | .queued =>
    [⟨c, false, if b = .h11 then some internalErrorStatus else none, false, .handler, false, false⟩]

/-- `_loop` goes on with connection `c`. -/
def inLoop (s : Server) (c : Nat) : Bool :=
  s.looping = some c && (s.conns[c]?).any fun k => k.tracked && k.isOpen

/-- `dispatcher` on the selector thread; `keeps` says how a 500 for a failed submission ends. -/
def dispatch (b : Backend) (s : Server) (c : Nat) (out : Submit) (keeps : Bool) : Option Server :=
  if s.inLoop c then
    some { s with
      conns := s.conns.modify c (dispatched b out keeps)
      reqs := s.reqs ++ submitted b out c }
  else none

/-- The request receives, and on httptools the bytes end the head of the next request: the
dispatcher runs at the end of the feed, on the worker. -/
def pipelined (b : Backend) (s : Server) (i : Nat) (r : Req) (out : Submit) : Option Server :=
  if b = .httptools ∧ r.stage = .handler ∧ (s.conns[r.conn]?).any (fun k => k.isOpen) then
    some { s with
      conns := s.conns.modify r.conn Conn.stopTracking
      reqs := s.reqs.modify i Req.touch ++ submitted b out r.conn }
  else none

/-- The stage after the response has been finished. -/
def finished : Stage → Stage
  | .emitting => .cleanup
  | stage => stage

/-- `track` on a worker closes the connection when the selector is shutting down. -/
def giveBack (s : Server) (k : Conn) : Conn := if s.shuttingDown then k.close else k.track false

/-- `finish_response`. It closes the connection when it cannot be kept; else `_maybe_give_back`
tracks it, if it is borrowed. -/
def finishResponse (s : Server) (i : Nat) (r : Req) (keeps : Bool) : Option Server :=
  if (r.stage = .handler ∨ r.stage = .emitting) ∧ r.status.isSome then
    some <|
      if !keeps then
        s.modifyBoth i (fun r => { r.touch with stage := finished r.stage }) r.conn Conn.close
      else if (s.conns[r.conn]?).any (fun k => k.tracked) then
        s.modifyReq i fun r => { r.touch with stage := finished r.stage }
      else
        s.modifyBoth i
          (fun r => { r.touch with gaveBack := true, stage := finished r.stage }) r.conn s.giveBack
  else none

/-- `conn.close()` of request `i`, on its way to `stage`. -/
def closeConn (s : Server) (i : Nat) (r : Req) (stage : Stage) : Server :=
  s.modifyBoth i (fun r => { r.touch with stage := stage }) r.conn Conn.close

/-- The common shape of `emit_handler_error` and `_emit_body_too_large`: a response when none was
started, else the connection is closed. -/
def emitOrClose (s : Server) (i : Nat) (r : Req) (status : Nat) : Server :=
  if r.status = none then
    s.modifyReq i fun r => { r with status := some status, stage := .emitting }
  else s.closeConn i r .cleanup

/-- `emit_handler_error`. -/
def emitHandlerError (s : Server) (i : Nat) (r : Req) : Server :=
  s.emitOrClose i r internalErrorStatus

/-- `_emit_body_too_large`. -/
def emitBodyTooLarge (s : Server) (i : Nat) (r : Req) : Server :=
  s.emitOrClose i r payloadTooLargeStatus

/-- The clauses of `_run_request`. -/
def recover (s : Server) (i : Nat) (r : Req) : Option Server :=
  match r.stage with
  | .raised .requestCancelled => some (s.closeConn i r .cleanup)
  | .raised .bodyTooLarge => some (s.emitBodyTooLarge i r)
  | .raised .exception => some (s.emitHandlerError i r)
  | .raised .baseException => some (s.modifyReq i fun r => { r with stage := .cleanup })
  | _ => none

/-- The `finally` of `_run_request`. -/
def cleanup (s : Server) (i : Nat) (r : Req) : Option Server :=
  if r.stage = .cleanup then
    some <|
      if s.fired r then s.closeConn i r .done
      else s.modifyReq i fun r => { r with stage := .done }
  else none

/-- A step of the handler that changes the request only. -/
def inHandler (s : Server) (i : Nat) (r : Req) (f : Req → Req) : Option Server :=
  if r.stage = .handler then some (s.modifyReq i f) else none

/-- Connection `c` changes, outside `_loop` and under a condition on it. -/
def between (s : Server) (c : Nat) (p : Conn → Bool) (g : Conn → Conn) : Option Server :=
  if s.looping = none ∧ (s.conns[c]?).any p then
    some { s with conns := s.conns.modify c g } else none

/-- One step. -/
def step (b : Backend) (s : Server) : Act → Option Server
  | .accept here =>
    if s.shuttingDown then none else some { s with conns := s.conns ++ [Conn.accepted here] }
  | .call c =>
    if s.looping = none ∧ s.shuttingDown = false ∧ (s.conns[c]?).any
      (fun k => k.registered && k.isOpen) then
      some { s with looping := some c }
    else none
  | .dispatch c out keeps => s.dispatch b c out keeps
  | .selectorClose c =>
    if s.inLoop c then some { s with conns := s.conns.modify c Conn.close } else none
  | .leave => some { s with looping := none }
  | .applyTrack c =>
    if s.shuttingDown then none else s.between c (fun k => 0 < k.queued) Conn.applyTrack
  | .sweep c => s.between c (fun k => k.registered && k.isOpen) Conn.sweep
  | .stop => if s.looping = none then some { s with shuttingDown := true } else none
  | .discard c =>
    if s.shuttingDown then s.between c (fun k => 0 < k.queued) Conn.discard else none
  | .shutdown => some { s with shutdown := true }
  | .signal i => s.reqs[i]?.map fun _ => s.modifyReq i fun r => { r with event := true }
  | .io i => s.reqs[i]?.bind fun r =>
    if r.stage = .handler ∨ r.stage = .emitting then some (s.modifyReq i Req.touch) else none
  | .pipelined i out => s.reqs[i]?.bind fun r => s.pipelined b i r out
  | .startResponse i status => s.reqs[i]?.bind fun r =>
    s.inHandler i r fun r => { r with status := some status }
  | .finishResponse i keeps => s.reqs[i]?.bind fun r => s.finishResponse i r keeps
  | .raises i e => s.reqs[i]?.bind fun r => s.inHandler i r fun r => { r with stage := .raised e }
  | .returns i => s.reqs[i]?.bind fun r => s.inHandler i r fun r => { r with stage := .cleanup }
  | .recover i => s.reqs[i]?.bind fun r => s.recover i r
  | .emitFails i => s.reqs[i]?.bind fun r =>
    if r.stage = .emitting then some (s.closeConn i r .cleanup) else none
  | .cleanup i => s.reqs[i]?.bind fun r => s.cleanup i r

/-- No connections and no requests. -/
def start : Server := ⟨[], [], false, none, false⟩

end Server

/-- The pool with any number of connections and workers. -/
def system (b : Backend) : Lts Server Act where
  init s := s = Server.start
  step := Server.step b

/-! ## Owners -/

namespace Server

variable {s s' : Server} {c i j : Nat} {r : Req} {f : Req → Req}

/-- `_loop` has an open connection that is tracked. -/
theorem inLoop_conn (h : s.inLoop c = true) :
    ∃ k, s.conns[c]? = some k ∧ k.tracked = true ∧ k.isOpen = true := by
  rw [inLoop, Bool.and_eq_true, Option.any_eq_true] at h
  obtain ⟨-, k, hk, hk'⟩ := h
  rw [Bool.and_eq_true] at hk'
  exact ⟨k, hk, hk'⟩

/-- A step of the selector between two calls. -/
theorem between_conn {p : Conn → Bool} {g : Conn → Conn} (h : s.between c p g = some s') :
    ∃ k, s.conns[c]? = some k ∧ p k = true ∧ { s with conns := s.conns.modify c g } = s' := by
  obtain ⟨⟨-, hany⟩, heq⟩ := Option.ite_none_right_eq_some.1 h
  rw [Option.any_eq_true] at hany
  obtain ⟨k, hk, hp⟩ := hany
  exact ⟨k, hk, hp, Option.some.inj heq⟩

theorem giveBack_seized (s : Server) (k : Conn) : (s.giveBack k).seized = k.seized := by
  unfold giveBack
  split
  · rfl
  · rfl

/-- A connection that is given back is tracked, or closed. -/
theorem giveBack_isOpen {k : Conn} (h : (s.giveBack k).isOpen = true) :
    (s.giveBack k).tracked = true ∧ k.isOpen = true := by
  unfold giveBack at h ⊢
  split at h
  · cases h
  · rename_i hrun
    rw [if_neg hrun]
    exact ⟨rfl, h⟩

/-- Request `j` holds the borrowed connection `c`. -/
def OwnsAt (s : Server) (c j : Nat) : Prop := ∃ r, s.reqs[j]? = some r ∧ r.Owns c

theorem modifyReq_eq (s : Server) (i : Nat) (f : Req → Req) (c : Nat) :
    s.modifyReq i f = s.modifyBoth i f c id := by
  rw [modifyBoth, List.modify_id]
  rfl

/-- Only the request that changes can become or cease to be an owner. -/
theorem ownsAt_modifyBoth (hr : s.reqs[i]? = some r) {d : Nat} {g : Conn → Conn} :
    (s.modifyBoth i f d g).OwnsAt c j ↔ if j = i then (f r).Owns c else s.OwnsAt c j := by
  unfold OwnsAt modifyBoth
  simp only [getElem?_modify_iff]
  constructor
  · rintro ⟨_, ⟨q, hq, rfl⟩, hown⟩
    by_cases hj : i = j
    · subst hj
      cases hr.symm.trans hq
      rw [if_pos rfl] at hown ⊢
      exact hown
    · rw [if_neg hj] at hown
      rw [if_neg (Ne.symm hj)]
      exact ⟨q, hq, hown⟩
  · intro h
    by_cases hj : j = i
    · subst hj
      rw [if_pos rfl] at h
      exact ⟨f r, ⟨r, hr, if_pos rfl⟩, h⟩
    · rw [if_neg hj] at h
      obtain ⟨q, hq, hown⟩ := h
      exact ⟨q, ⟨q, hq, if_neg (Ne.symm hj)⟩, hown⟩

/-- A new request is the only new owner. -/
theorem ownsAt_concat {conns : List Conn} :
    OwnsAt { s with conns := conns, reqs := s.reqs ++ [r] } c j ↔
      s.OwnsAt c j ∨ j = s.reqs.length ∧ r.Owns c := by
  unfold OwnsAt
  simp only [getElem?_concat_iff]
  constructor
  · rintro ⟨q, hq | ⟨hj, rfl⟩, hown⟩
    · exact .inl ⟨q, hq, hown⟩
    · exact .inr ⟨hj, hown⟩
  · rintro (⟨q, hq, hown⟩ | ⟨hj, hown⟩)
    · exact ⟨q, .inl hq, hown⟩
    · exact ⟨r, .inr ⟨hj, rfl⟩, hown⟩

end Server

end LocalPost.Http.Pool
