import LocalPost.Core.Lts
import LocalPost.Http.Writer.Message
import LocalPost.Http.Wsgi.Respond

/-!
# The response methods of the asynchronous contexts

`_ASGIReqCtx` and `_RSGIReqCtx` have the same three methods over what their servers take, a
`Transport`. A call is under way over several awaits; while one of them waits, the peer can go away,
and every await can raise, with what was sent taken by the server or not. The handler is free to
catch what a call raises and to make another one.

`Inv` says what has been sent when: nothing before a call has started, then what belongs to that one
call, up to where it has come. `Inv.step` is the one fact about a step that everything else is drawn
from.
-/

set_option autoImplicit false

namespace LocalPost.Http.Async

open LocalPost.Core LocalPost.Http.Writer
open LocalPost.Http.Wsgi (readChunks)

/-- A binary file: its name in the file system, if it has one, and its bytes, `none` once it is
closed. -/
structure File where
  name : Option Bytes
  data : Option Bytes
  deriving DecidableEq, Repr

/-- A call of a response method. An iterator is the chunks it yields, and whether it raises behind
them. -/
inductive Call where
  | complete (r : Response) (body : Option Bytes)
  | stream (r : Response) (chunks : List Bytes) (raises : Bool)
  | sendfile (r : Response) (file : File) (offset count : Nat)
  deriving DecidableEq, Repr

/-- The response of a call. -/
def Call.response : Call → Response
  | .complete r _ => r
  | .stream r _ _ => r
  | .sendfile r _ _ _ => r

/-- How a call ends: it returns, it raises, or it raises before it has started anything. -/
inductive Outcome where
  | returned
  | raised
  | refused
  deriving DecidableEq, Repr

/-- What a method says to its server. `fileRange` is the server's own way to send a part of a file,
for the files that it can open itself. -/
structure Transport (ε : Type) where
  complete : Response → Option Bytes → List ε
  head : Response → ε
  chunk : Bytes → ε
  final : Option ε
  fileRange : Response → File → Nat → Nat → Option ε

/-- What comes behind an `await` of the server's `send`: the other events of `complete`, the loop
over the iterator, which `start` has not yet entered, or the end of the `finally` clause. -/
inductive Rest (ε : Type) where
  | events (es : List ε)
  | start (chunks : List Bytes) (raises : Bool)
  | iterate (chunks : List Bytes) (raises : Bool)
  | leave (raised : Bool)
  deriving DecidableEq, Repr

/-- Where a method waits: for the server to take an event, or for the next chunk. -/
inductive Await (ε : Type) where
  | send (e : ε) (rest : Rest ε)
  | next (chunks : List Bytes) (raises : Bool)
  deriving DecidableEq, Repr

/-- The context of a request. `handling` says that the handler runs; `log` has the calls that have
ended. -/
structure Ctx (ε : Type) where
  handling : Bool
  started : Bool
  responseStatus : Option Nat
  disconnected : Bool
  sent : List ε
  place : Option (Call × Await ε)
  log : List (Call × Outcome)
  deriving DecidableEq, Repr

section

variable {ε : Type}

/-- A new context. -/
def Ctx.new : Ctx ε := ⟨true, false, none, false, [], none, []⟩

/-- The call is over. -/
def Ctx.finish (k : Call) (o : Outcome) (c : Ctx ε) : Ctx ε :=
  { c with place := none, log := c.log ++ [(k, o)] }

/-- The call goes on at `a`. -/
def Ctx.wait (k : Call) (a : Await ε) (c : Ctx ε) : Ctx ε := { c with place := some (k, a) }

/-- What stands behind `_check_not_started`. -/
def Ctx.mark (r : Response) (c : Ctx ε) : Ctx ε :=
  { c with started := true, responseStatus := some r.statusCode }

def Outcome.of (raised : Bool) : Outcome := if raised then .raised else .returned

variable (T : Transport ε)

/-- The `finally` clause of `stream`, where there is one, and then its end. -/
def Ctx.leave (k : Call) (raised : Bool) (c : Ctx ε) : Ctx ε :=
  match T.final with
  | none => c.finish k (.of raised)
  | some e => if c.disconnected then c.finish k (.of raised) else c.wait k (.send e (.leave raised))

/-- The head of the loop of `stream`. -/
def Ctx.pull (k : Call) (chunks : List Bytes) (raises : Bool) (c : Ctx ε) : Ctx ε :=
  match chunks with
  | [] => c.leave T k raises
  | chunk :: chunks =>
    if c.disconnected then c.leave T k false
    else c.wait k (.send (T.chunk chunk) (.iterate chunks raises))

/-- The server has taken an event. -/
def Ctx.resume (k : Call) (rest : Rest ε) (c : Ctx ε) : Ctx ε :=
  match rest with
  | .events [] => c.finish k .returned
  | .events (e :: es) => c.wait k (.send e (.events es))
  | .start chunks raises => c.wait k (.next chunks raises)
  | .iterate chunks raises => c.wait k (.next chunks raises)
  | .leave raised => c.finish k (.of raised)

/-- The server's `send` has raised. Only the loop stands in the `try` block. -/
def Ctx.fail (k : Call) (rest : Rest ε) (c : Ctx ε) : Ctx ε :=
  match rest with
  | .events _ => c.finish k .raised
  | .start _ _ => c.finish k .raised
  | .iterate _ _ => c.leave T k true
  | .leave _ => c.finish k .raised

/-- `complete`. -/
def Ctx.complete (k : Call) (r : Response) (body : Option Bytes) (c : Ctx ε) : Ctx ε :=
  if c.started then c.finish k .refused else (c.mark r).resume k (.events (T.complete r body))

/-- `stream`. -/
def Ctx.stream (k : Call) (r : Response) (chunks : List Bytes) (raises : Bool)
    (c : Ctx ε) : Ctx ε :=
  if c.started then c.finish k .refused
  else (c.mark r).wait k (.send (T.head r) (.start chunks raises))

/-- `sendfile`: a closed file raises when its position is set. -/
def Ctx.sendfile (k : Call) (r : Response) (file : File) (offset count : Nat) (c : Ctx ε) : Ctx ε :=
  if c.started then c.finish k .refused
  else
    match T.fileRange r file offset count with
    | some e => (c.mark r).wait k (.send e (.events []))
    | none =>
      match file.data with
      | none => c.finish k .refused
      | some data => c.stream T k r (readChunks count (data.drop offset)) false

def Ctx.call (k : Call) (c : Ctx ε) : Ctx ε :=
  match k with
  | .complete r body => c.complete T k r body
  | .stream r chunks raises => c.stream T k r chunks raises
  | .sendfile r file offset count => c.sendfile T k r file offset count

/-! ## The system -/

/-- What happens next: the handler calls a method, the peer goes away, what a method waits for
comes, or the wait raises; an event may have been taken even then. -/
inductive Act where
  | call (k : Call)
  | disconnect
  | returns
  | raises (taken : Bool)
  deriving DecidableEq, Repr

def Ctx.step (c : Ctx ε) : Act → Option (Ctx ε)
  | .call k => if c.handling = true ∧ c.place = none then some (c.call T k) else none
  | .disconnect => some { c with disconnected := true }
  | .returns =>
    match c.place with
    | none => none
    | some (k, .send e rest) => some ({ c with sent := c.sent ++ [e] }.resume k rest)
    | some (k, .next chunks raises) => some (c.pull T k chunks raises)
  | .raises taken =>
    match c.place with
    | none => none
    | some (k, .send e rest) =>
      some ({ c with sent := if taken then c.sent ++ [e] else c.sent }.fail T k rest)
    | some (k, .next _ _) => some (c.leave T k true)

/-- `b"Payload Too Large"`. -/
def payloadTooLargeBody : Bytes :=
  [80, 97, 121, 108, 111, 97, 100, 32, 84, 111, 111, 32, 76, 97, 114, 103, 101]

/-- What `_send_canned` is given, as a response. -/
def payloadTooLarge : Response where
  statusCode := 413
  headers := [([99, 111, 110, 116, 101, 110, 116, 45, 116, 121, 112, 101],
      [116, 101, 120, 116, 47, 112, 108, 97, 105, 110, 59, 32, 99, 104, 97, 114, 115, 101, 116, 61,
        117, 116, 102, 45, 56]),
    (Bytes.contentLengthName, [49, 55])]
  reason := []

/-- `_handle_http`, and `_dispatch`: what declares too many bytes is answered without the
handler. -/
def dispatch (maxBodySize : Int) (request : Request) : Ctx ε :=
  if 0 ≤ maxBodySize ∧ (contentLength request.headers).any (fun n => decide (maxBodySize < n)) then
    { Ctx.new with handling := false }.complete T
      (.complete payloadTooLarge (some payloadTooLargeBody))
      payloadTooLarge (some payloadTooLargeBody)
  else Ctx.new

/-- A request as the bridge handles it. -/
def system : Lts (Ctx ε) Act where
  init := fun c => ∃ maxBodySize request, c = dispatch T maxBodySize request
  step := Ctx.step T

/-! ## What has been sent -/

/-- What a call is for: some events one after the other, or a head and chunks. -/
inductive Plan (ε : Type) where
  | once (es : List ε)
  | chunked (chunks : List Bytes) (raises : Bool)
  deriving DecidableEq, Repr

/-- The plan of a call, if it can be started. -/
def Transport.plan : Call → Option (Plan ε)
  | .complete r body => some (.once (T.complete r body))
  | .stream _ chunks raises => some (.chunked chunks raises)
  | .sendfile r file offset count =>
    match T.fileRange r file offset count with
    | some e => some (.once [e])
    | none => file.data.map fun data => .chunked (readChunks count (data.drop offset)) false

/-- A head with chunks behind it. -/
def Transport.streamed (r : Response) (chunks : List Bytes) : List ε :=
  T.head r :: chunks.map T.chunk

theorem Transport.streamed_concat (r : Response) (chunks : List Bytes) (chunk : Bytes) :
    T.streamed r (chunks ++ [chunk]) = T.streamed r chunks ++ [T.chunk chunk] := by
  rw [streamed, streamed, List.map_append, List.map_singleton, List.cons_append]

/-- A call that waits at `a` has sent `es`. -/
def Running (k : Call) : Await ε → List ε → Prop
  | .send e (.events rest), es => T.plan k = some (.once (es ++ e :: rest))
  | .send e (.start chunks raises), es =>
    T.plan k = some (.chunked chunks raises) ∧ es = [] ∧ e = T.head k.response
  | .next chunks raises, es =>
    ∃ done, T.plan k = some (.chunked (done ++ chunks) raises) ∧ es = T.streamed k.response done
  | .send e (.iterate chunks raises), es =>
    ∃ done chunk, T.plan k = some (.chunked (done ++ chunk :: chunks) raises) ∧ e = T.chunk chunk ∧
      es = T.streamed k.response done
  | .send e (.leave raised), es =>
    ∃ done chunks raises, T.plan k = some (.chunked chunks raises) ∧ done <+: chunks ∧
      T.final = some e ∧
      es = T.streamed k.response done ∧ (raised = false → done = chunks ∧ raises = false)

/-- A call that has ended with `o` has sent `es`. Where it has returned and the peer is still there,
it has sent everything. -/
inductive Ended (k : Call) (o : Outcome) (disconnected : Bool) (es : List ε) : Prop where
  | once (all : List ε) (hplan : T.plan k = some (.once all)) (hes : es <+: all)
      (hall : o = .returned → es = all)
  | unsent (chunks : List Bytes) (raises : Bool) (hplan : T.plan k = some (.chunked chunks raises))
      (hes : es = []) (hraised : o = .raised)
  | streamed (chunks done : List Bytes) (raises : Bool) (closing : List ε)
      (hplan : T.plan k = some (.chunked chunks raises)) (hdone : done <+: chunks)
      (hes : es = T.streamed k.response done ++ closing) (hclosing : closing <+: T.final.toList)
      (hall : o = .returned → disconnected = false → done = chunks ∧ raises = false ∧
        closing = T.final.toList)

end

/-- Every call has been refused. -/
def AllRefused (log : List (Call × Outcome)) : Prop := ∀ e ∈ log, e.2 = .refused

/-- One call has not been refused. -/
def OnlyOne (k : Call) (o : Outcome) (log : List (Call × Outcome)) : Prop :=
  ∃ before behind, log = before ++ (k, o) :: behind ∧ AllRefused before ∧ AllRefused behind

/-- No call has started; one is under way; or one has ended. -/
inductive Inv {ε : Type} (T : Transport ε) (c : Ctx ε) : Prop where
  | fresh (hstarted : c.started = false) (hstatus : c.responseStatus = none)
    (hplace : c.place = none)
      (hsent : c.sent = []) (hlog : AllRefused c.log)
  | running (k : Call) (a : Await ε) (hstarted : c.started = true)
      (hstatus : c.responseStatus = some k.response.statusCode) (hplace : c.place = some (k, a))
      (hsent : Running T k a c.sent) (hlog : AllRefused c.log)
  | ended (k : Call) (o : Outcome) (hstarted : c.started = true)
      (hstatus : c.responseStatus = some k.response.statusCode) (hplace : c.place = none)
      (hsent : Ended T k o c.disconnected c.sent) (hrefused : o ≠ .refused)
        (hlog : OnlyOne k o c.log)

/-! ## One step -/

section

variable {ε : Type} {T : Transport ε} {c : Ctx ε} {k : Call}

theorem OnlyOne.finish {o : Outcome} {log : List (Call × Outcome)} (h : AllRefused log) :
    OnlyOne k o (log ++ [(k, o)]) :=
  ⟨log, [], rfl, h, fun _ he => absurd he List.not_mem_nil⟩

theorem AllRefused.concat {log : List (Call × Outcome)} (h : AllRefused log) (k : Call) :
    AllRefused (log ++ [(k, .refused)]) := by
  intro e he
  rcases List.mem_append.1 he with he | he
  · exact h e he
  · rw [List.mem_singleton.1 he]

theorem Outcome.of_ne_refused (raised : Bool) : Outcome.of raised ≠ .refused := by
  cases raised <;> simp [Outcome.of]

theorem Outcome.of_returned {raised : Bool} (h : Outcome.of raised = .returned) :
    raised = false := by
  cases raised with
  | true => cases h
  | false => rfl

/-- What a call under way has in common with the invariant. -/
structure Under (c : Ctx ε) (k : Call) : Prop where
  started : c.started = true
  status : c.responseStatus = some k.response.statusCode
  log : AllRefused c.log

theorem Under.finish (h : Under c k) {o : Outcome} (hne : o ≠ .refused)
    (hsent : Ended T k o c.disconnected c.sent) : Inv T (c.finish k o) :=
  .ended k o h.started h.status rfl hsent hne (.finish h.log)

theorem Under.wait (h : Under c k) {a : Await ε} (hsent : Running T k a c.sent) :
    Inv T (c.wait k a) :=
  .running k a h.started h.status rfl hsent h.log

/-- The loop ends with the chunks `done` sent: all of them, unless it is left early. -/
theorem Under.leave (h : Under c k) {chunks : List Bytes} (done : List Bytes) {raises raised : Bool}
    (hplan : T.plan k = some (.chunked chunks raises)) (hdone : done <+: chunks)
    (hsent : c.sent = T.streamed k.response done)
    (hall : raised = false → c.disconnected = false → done = chunks ∧ raises = false) :
    Inv T (c.leave T k raised) := by
  have hopen : c.sent = T.streamed k.response done ++ [] := by rw [hsent, List.append_nil]
  rw [Ctx.leave]
  -- without a last event the call ends here
  split
  · rename_i hfinal
    refine h.finish (Outcome.of_ne_refused raised)
      (.streamed chunks done raises [] hplan hdone hopen
      List.nil_prefix fun hreturned hconnected => ?_)
    obtain ⟨hchunks, hraises⟩ := hall (Outcome.of_returned hreturned) hconnected
    refine ⟨hchunks, hraises, ?_⟩
    rw [hfinal]
    rfl
  · rename_i e hfinal
    -- a peer that has gone gets no last event
    split
    · rename_i hgone
      refine h.finish (Outcome.of_ne_refused raised)
        (.streamed chunks done raises [] hplan hdone hopen List.nil_prefix fun _ hconnected => ?_)
      rw [hgone] at hconnected
      cases hconnected
    -- else the last event is still to be awaited
    · rename_i hgone
      apply h.wait
      exact ⟨done, chunks, raises, hplan, hdone, hfinal, hsent,
        fun hraised => hall hraised (Bool.eq_false_iff.2 hgone)⟩

/-- The pull of the next chunk keeps the invariant. -/
theorem Under.pull (h : Under c k) {chunks done : List Bytes} {raises : Bool}
    (hplan : T.plan k = some (.chunked (done ++ chunks) raises))
    (hsent : c.sent = T.streamed k.response done) : Inv T (c.pull T k chunks raises) := by
  cases chunks with
  | nil =>
    apply h.leave done hplan (List.prefix_append _ _) hsent
    exact fun hraises _ => ⟨(List.append_nil done).symm, hraises⟩
  | cons chunk chunks =>
    rw [Ctx.pull]
    split
    · rename_i hgone
      refine h.leave done hplan (List.prefix_append _ _) hsent fun _ hconnected => ?_
      rw [hgone] at hconnected
      cases hconnected
    · apply h.wait
      exact ⟨done, chunk, hplan, rfl, hsent⟩

/-- A call starts with the events that it is for. -/
theorem Under.events (h : Under c k) {es : List ε} (sent : List ε)
    (hplan : T.plan k = some (.once (sent ++ es)))
    (hsent : c.sent = sent) : Inv T (c.resume k (.events es)) := by
  cases es with
  | nil =>
    rw [List.append_nil] at hplan
    exact h.finish (by decide) (.once sent hplan (hsent ▸ List.prefix_rfl) fun _ => hsent)
  | cons e es =>
    apply h.wait
    rw [Running, hsent]
    exact hplan

/-- A call of a handler, with nothing under way. -/
theorem Inv.call (h : Inv T c) (hplace : c.place = none) (k : Call) : Inv T (c.call T k) := by
  -- a call on a context that has started is refused: one more refusal in the log
  have hrefuse : Inv T (c.finish k .refused) := by
    cases h with
    | fresh hstarted hstatus hplace hsent hlog =>
      exact .fresh hstarted hstatus rfl hsent (hlog.concat k)
    | running k' a hstarted hstatus hbusy hsent hlog =>
      rw [hplace] at hbusy
      cases hbusy
    | ended k' o hstarted hstatus hplace hsent hrefused hlog =>
      obtain ⟨before, behind, heq, hbefore, hbehind⟩ := hlog
      refine .ended k' o hstarted hstatus rfl hsent hrefused
        ⟨before, behind ++ [(k, .refused)], ?_, hbefore, hbehind.concat k⟩
      rw [Ctx.finish, heq, List.append_assoc, List.cons_append]
  by_cases hstarted : c.started = true
  · cases k with
    | complete r body => rwa [Ctx.call, Ctx.complete, if_pos hstarted]
    | stream r chunks raises => rwa [Ctx.call, Ctx.stream, if_pos hstarted]
    | sendfile r file offset count => rwa [Ctx.call, Ctx.sendfile, if_pos hstarted]
  -- before the start nothing was sent and every call was refused
  · obtain ⟨hsent, hlog⟩ : c.sent = [] ∧ AllRefused c.log := by
      cases h with
      | fresh _ _ _ hsent hlog => exact ⟨hsent, hlog⟩
      | running k' a htrue _ _ _ _ => exact absurd htrue hstarted
      | ended k' o htrue _ _ _ _ _ => exact absurd htrue hstarted
    cases k with
    | complete r body =>
      rw [Ctx.call, Ctx.complete, if_neg hstarted]
      have hunder : Under (c.mark r) (.complete r body) := ⟨rfl, rfl, hlog⟩
      exact hunder.events [] rfl hsent
    | stream r chunks raises =>
      rw [Ctx.call, Ctx.stream, if_neg hstarted]
      have hunder : Under (c.mark r) (.stream r chunks raises) := ⟨rfl, rfl, hlog⟩
      exact hunder.wait ⟨rfl, hsent, rfl⟩
    | sendfile r file offset count =>
      rw [Ctx.call, Ctx.sendfile, if_neg hstarted]
      have hunder : Under (c.mark r) (.sendfile r file offset count) := ⟨rfl, rfl, hlog⟩
      -- a range of the file that the transport sends by itself, or its content as a stream
      cases hrange : T.fileRange r file offset count with
      | some e =>
        apply hunder.wait
        change T.plan _ = some (.once (c.sent ++ [e]))
        rw [Transport.plan, hrange, hsent]
        rfl
      | none =>
        dsimp only
        cases hdata : file.data with
        | none => exact hrefuse
        | some data =>
          dsimp only
          rw [Ctx.stream, if_neg hstarted]
          apply hunder.wait
          refine ⟨?_, hsent, rfl⟩
          rw [Transport.plan, hrange, hdata]
          rfl

/-- The server takes the event that a call waits with. -/
theorem Under.resume (h : Under c k) {e : ε} {rest : Rest ε}
    (hsent : Running T k (.send e rest) c.sent) :
    Inv T (Ctx.resume k rest { c with sent := c.sent ++ [e] }) := by
  have hunder : Under { c with sent := c.sent ++ [e] } k := ⟨h.started, h.status, h.log⟩
  -- What the call was to do when its send had returned.
  cases rest with
  | events es =>
    refine hunder.events (c.sent ++ [e]) ?_ rfl
    rw [List.append_assoc]
    exact hsent
  | start chunks raises =>
    obtain ⟨hplan, hnil, rfl⟩ := hsent
    apply hunder.wait
    refine ⟨[], hplan, ?_⟩
    change c.sent ++ [T.head k.response] = _
    rw [hnil]
    rfl
  | iterate chunks raises =>
    obtain ⟨done, chunk, hplan, rfl, hes⟩ := hsent
    apply hunder.wait
    refine ⟨done ++ [chunk], ?_, ?_⟩
    · rw [hplan, List.append_assoc]
      rfl
    · rw [T.streamed_concat, ← hes]
  -- the last event is out: the call ends with all that it had to send
  | leave raised =>
    obtain ⟨done, chunks, raises, hplan, hdone, hfinal, hes, hall⟩ := hsent
    refine hunder.finish (Outcome.of_ne_refused raised)
      (.streamed chunks done raises [e] hplan hdone ?_ ?_ ?_)
    · change c.sent ++ [e] = _
      rw [hes]
    · rw [hfinal]
      exact List.prefix_rfl
    · intro hreturned _
      obtain ⟨hchunks, hraises⟩ := hall (Outcome.of_returned hreturned)
      refine ⟨hchunks, hraises, ?_⟩
      rw [hfinal]
      rfl

/-- The wait for the server raises. -/
theorem Under.fail (h : Under c k) {e : ε} {rest : Rest ε}
    (hsent : Running T k (.send e rest) c.sent)
    (taken : Bool) : Inv T
    (Ctx.fail T k rest { c with sent := if taken then c.sent ++ [e] else c.sent }) := by
  have hunder : Under { c with sent := if taken then c.sent ++ [e] else c.sent } k :=
    ⟨h.started, h.status, h.log⟩
  have hno : ∀ {p : Prop}, Outcome.raised = .returned → p := fun hreturned => nomatch hreturned
  cases rest with
  | events es =>
    refine hunder.finish (by decide) (.once _ hsent ?_ hno)
    cases taken with
    | true => exact ⟨es, List.append_assoc _ _ _⟩
    | false => exact List.prefix_append _ _
  | start chunks raises =>
    obtain ⟨hplan, hnil, rfl⟩ := hsent
    cases taken with
    | true =>
      refine hunder.finish (by decide)
        (.streamed chunks [] raises [] hplan List.nil_prefix ?_ List.nil_prefix hno)
      change c.sent ++ [T.head k.response] = _
      rw [hnil]
      rfl
    | false => exact hunder.finish (by decide) (.unsent chunks raises hplan hnil rfl)
  | iterate chunks raises =>
    obtain ⟨done, chunk, hplan, rfl, hes⟩ := hsent
    -- the clause behind the loop runs, with the last chunk taken or not
    cases taken with
    | true =>
      refine hunder.leave (done ++ [chunk]) hplan ⟨chunks, ?_⟩ ?_ fun hraised => nomatch hraised
      · rw [List.append_assoc]
        rfl
      · rw [T.streamed_concat, ← hes]
        rfl
    | false =>
      exact hunder.leave done hplan (List.prefix_append _ _) hes fun hraised => nomatch hraised
  | leave raised =>
    obtain ⟨done, chunks, raises, hplan, hdone, hfinal, hes, hall⟩ := hsent
    cases taken with
    | true =>
      refine hunder.finish (by decide) (.streamed chunks done raises [e] hplan hdone ?_ ?_ hno)
      · change c.sent ++ [e] = _
        rw [hes]
      · rw [hfinal]
        exact List.prefix_rfl
    | false =>
      refine hunder.finish (by decide)
        (.streamed chunks done raises [] hplan hdone ?_ List.nil_prefix hno)
      change c.sent = _
      rw [hes, List.append_nil]

/-- What is known of a call that has ended stays true when the peer goes away. -/
theorem Ended.disconnect {o : Outcome} {disconnected : Bool} {es : List ε}
    (h : Ended T k o disconnected es) : Ended T k o true es := by
  cases h with
  | once all hplan hes hall => exact .once all hplan hes hall
  | unsent chunks raises hplan hes hraised => exact .unsent chunks raises hplan hes hraised
  | streamed chunks done raises closing hplan hdone hes hclosing hall =>
    exact .streamed chunks done raises closing hplan hdone hes hclosing fun _ hconnected =>
      nomatch hconnected

/-- Every step of a call keeps the invariant. -/
theorem Inv.step (h : Inv T c) {a : Act} {d : Ctx ε} (hstep : c.step T a = some d) : Inv T d := by
  cases a with
  | call k =>
    rw [Ctx.step] at hstep
    split at hstep
    · rename_i hguard
      cases hstep
      exact h.call hguard.2 k
    · cases hstep
  | disconnect =>
    cases hstep
    -- the invariant speaks of the peer only where the call has ended
    cases h with
    | fresh hstarted hstatus hplace hsent hlog => exact .fresh hstarted hstatus hplace hsent hlog
    | running k a hstarted hstatus hplace hsent hlog =>
      exact .running k a hstarted hstatus hplace hsent hlog
    | ended k o hstarted hstatus hplace hsent hrefused hlog =>
      exact .ended k o hstarted hstatus hplace hsent.disconnect hrefused hlog
  | returns =>
    -- only a running call awaits anything
    cases h with
    | fresh hstarted hstatus hplace hsent hlog =>
      rw [Ctx.step, hplace] at hstep
      cases hstep
    | running k a hstarted hstatus hplace hsent hlog =>
      have hunder : Under c k := ⟨hstarted, hstatus, hlog⟩
      rw [Ctx.step, hplace] at hstep
      cases a with
      | send e rest =>
        cases hstep
        exact hunder.resume hsent
      | next chunks raises =>
        cases hstep
        obtain ⟨done, hplan, hes⟩ := hsent
        exact hunder.pull hplan hes
    | ended k o hstarted hstatus hplace hsent hrefused hlog =>
      rw [Ctx.step, hplace] at hstep
      cases hstep
  -- an await that raises ends the call, with the event sent or not
  | raises taken =>
    cases h with
    | fresh hstarted hstatus hplace hsent hlog =>
      rw [Ctx.step, hplace] at hstep
      cases hstep
    | running k a hstarted hstatus hplace hsent hlog =>
      have hunder : Under c k := ⟨hstarted, hstatus, hlog⟩
      rw [Ctx.step, hplace] at hstep
      cases a with
      | send e rest =>
        cases hstep
        exact hunder.fail hsent taken
      | next chunks raises =>
        cases hstep
        obtain ⟨done, hplan, hes⟩ := hsent
        exact hunder.leave done hplan (List.prefix_append _ _) hes fun hraised => nomatch hraised
    | ended k o hstarted hstatus hplace hsent hrefused hlog =>
      rw [Ctx.step, hplace] at hstep
      cases hstep

end

theorem inv_new {ε : Type} {T : Transport ε} {c : Ctx ε} (hstarted : c.started = false)
    (hstatus : c.responseStatus = none) (hplace : c.place = none) (hsent : c.sent = [])
    (hlog : c.log = []) : Inv T c :=
  .fresh hstarted hstatus hplace hsent fun _ he => absurd (hlog ▸ he) List.not_mem_nil

/-- Whatever the handler calls, and whatever its server and its peer do. -/
theorem inv_reachable {ε : Type} {T : Transport ε} {c : Ctx ε} (h : (system T).Reachable c) :
    Inv T c := by
  refine Lts.invariant ?_ (fun c a d hinv hstep => hinv.step hstep) h
  rintro c ⟨maxBodySize, request, rfl⟩
  rw [dispatch]
  split
  · have hinv : Inv T { (Ctx.new : Ctx ε) with handling := false } := inv_new rfl rfl rfl rfl rfl
    exact hinv.call rfl (.complete payloadTooLarge (some payloadTooLargeBody))
  · exact inv_new rfl rfl rfl rfl rfl

/-! ## A call comes to its end -/

section

variable {ε : Type} {T : Transport ε}

/-- The waits that a call still has in front of it, at most. -/
def Await.left : Await ε → Nat
  | .send _ (.events es) => es.length + 1
  | .send _ (.start chunks _) => 2 * chunks.length + 3
  | .send _ (.iterate chunks _) => 2 * chunks.length + 3
  | .send _ (.leave _) => 1
  | .next chunks _ => 2 * chunks.length + 2

def Ctx.left (c : Ctx ε) : Nat := (c.place.map fun p => p.2.left).getD 0

theorem Ctx.left_wait (k : Call) (a : Await ε) (c : Ctx ε) : (c.wait k a).left = a.left := rfl

theorem Ctx.left_finish (k : Call) (o : Outcome) (c : Ctx ε) : (c.finish k o).left = 0 := rfl

theorem Ctx.left_leave_le (k : Call) (raised : Bool) (c : Ctx ε) :
    (c.leave T k raised).left ≤ 1 := by
  rw [leave]
  split
  · exact Nat.zero_le 1
  · split
    · exact Nat.zero_le 1
    · exact Nat.le_refl 1

/-- The next pull leaves less to wait for. -/
theorem Ctx.left_pull_lt (k : Call) (chunks : List Bytes) (raises : Bool) (c : Ctx ε) :
    (c.pull T k chunks raises).left < 2 * chunks.length + 2 := by
  have hleave : ∀ raised, (c.leave T k raised).left ≤ 1 := fun raised => c.left_leave_le k raised
  cases chunks with
  | nil => exact Nat.lt_of_le_of_lt (hleave raises) (Nat.lt_succ_self 1)
  | cons chunk chunks =>
    rw [pull]
    split
    · exact Nat.lt_of_le_of_lt (hleave false) (by omega)
    · rw [left_wait, Await.left, List.length_cons]
      omega

theorem Ctx.left_resume_lt (k : Call) (e : ε) (rest : Rest ε) (c : Ctx ε) :
    (c.resume k rest).left < (Await.send e rest).left := by
  cases rest with
  | events es => cases es <;> exact Nat.lt_succ_self _
  | start chunks raises => exact Nat.lt_succ_self _
  | iterate chunks raises => exact Nat.lt_succ_self _
  | leave raised => exact Nat.lt_succ_self _

/-- A send that failed leaves less to wait for. -/
theorem Ctx.left_fail_lt (k : Call) (e : ε) (rest : Rest ε) (c : Ctx ε) :
    (c.fail T k rest).left < (Await.send e rest).left := by
  cases rest with
  | events es => exact Nat.succ_pos _
  | start chunks raises => exact Nat.succ_pos _
  | iterate chunks raises =>
    refine Nat.lt_of_le_of_lt (c.left_leave_le k true) ?_
    rw [Await.left]
    omega
  | leave raised => exact Nat.succ_pos _

/-- What the methods do lowers the number; a disconnect does not raise it. -/
theorem Ctx.left_step {c d : Ctx ε} {a : Act} (hcall : ∀ k, a ≠ .call k)
    (hstep : c.step T a = some d) : d.left + (if a = .disconnect then 0 else 1) ≤ c.left := by
  cases a with
  | call k => exact absurd rfl (hcall k)
  | disconnect =>
    cases hstep
    exact Nat.le_refl _
  -- a return takes the awaited event from what is left
  | returns =>
    rw [if_neg (by decide)]
    rw [step] at hstep
    split at hstep
    · cases hstep
    · rename_i k e rest hplace
      cases hstep
      rw [left, left, hplace]
      exact left_resume_lt k e rest _
    · rename_i k chunks raises hplace
      cases hstep
      rw [left, left, hplace]
      exact left_pull_lt k chunks raises c
  | raises taken =>
    rw [if_neg (by simp)]
    rw [step] at hstep
    split at hstep
    · cases hstep
    · rename_i k e rest hplace
      cases hstep
      rw [left, left, hplace]
      exact left_fail_lt k e rest _
    · rename_i k chunks raises hplace
      cases hstep
      -- an iterator that raises leaves at most the last event
      rw [left, left, hplace]
      refine Nat.lt_of_le_of_lt (c.left_leave_le k true) ?_
      rw [Option.map_some, Option.getD_some, Await.left]
      omega

/-- However the waits end, there are no more of them than `left`. -/
theorem call_ends {c d : Ctx ε} {as : List Act} (hcalls : ∀ a ∈ as, ∀ k, a ≠ .call k)
    (hrun : (system T).exec c as = some d) : (as.filter (· ≠ .disconnect)).length +
    d.left ≤ c.left := by
  induction as generalizing c with
  | nil =>
    cases hrun
    exact Nat.le_of_eq (Nat.zero_add _)
  | cons a as ih =>
    obtain ⟨u, hu, hrest⟩ := (Lts.exec_cons _).1 hrun
    have hlower := Ctx.left_step (hcalls a List.mem_cons_self) hu
    have hle := ih (fun b hb => hcalls b (List.mem_cons_of_mem _ hb)) hrest
    by_cases ha : a = .disconnect
    · rw [if_pos ha] at hlower
      rw [List.filter_cons_of_neg (by simp [ha])]
      omega
    · rw [if_neg ha] at hlower
      rw [List.filter_cons_of_pos (by simp [ha]), List.length_cons]
      omega

/-- A call under way is never stuck for good: the end of its wait is always a step. -/
theorem idle_or_goesOn (c : Ctx ε) : c.place = none ∨ ∃ d, (system T).step c .returns = some d := by
  cases hplace : c.place with
  | none => exact .inl rfl
  | some p =>
    obtain ⟨k, a⟩ := p
    refine .inr (Option.isSome_iff_exists.1 ?_)
    cases a with
    | send e rest => simp only [system, Ctx.step, hplace, Option.isSome_some]
    | next chunks raises => simp only [system, Ctx.step, hplace, Option.isSome_some]

end

end LocalPost.Http.Async
