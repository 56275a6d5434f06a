import LocalPost.Http.Base.Closing
import LocalPost.Http.Compress.Ctx
import LocalPost.Http.Writer.Outgoing

/-!
# Responses to HTTP/1.0 requests

An HTTP/1.0 client does not know chunks: the end of a body is its `Content-Length`, or the end of
the connection. On httptools the framing is chosen from the headers of the response, whatever the
version of the request; a response without framing headers is chunked.

Nor does `finish_response` close the connection. What closes it is `_loop` at its head, which the
selector thread comes to behind a handler of its own, and behind a worker only when the worker has
been quicker (`Handling.settle`, which `run_acts` compares with the runs of the connection).
`readable_served_iff` says for which calls the client can read the response. The socket may fail at
any send.
-/

set_option autoImplicit false

namespace LocalPost.Http.Compress

open LocalPost.Core
open LocalPost.Http.Writer
open LocalPost.Http.Writer.Httptools

/-- The answer of a handler that calls a method of its context, with chunks that come to their
end. -/
def Call.answer : Call (List Bytes) → Answer
  | .complete response body => .complete response body
  | .stream response chunks => .stream response chunks .finished
  | .sendfile response count moved fails => .sendfile response count moved fails

@[simp] theorem Call.response_answer (call : Call (List Bytes)) :
    call.answer.response = call.response := by
  cases call <;> rfl

/-- A call whose chunks come to their end is not cancelled. -/
theorem finishes_of_answer {call : Call (List Bytes)} {c c' : Ctx}
    (h : Ctx.methods.answer call.answer c = .done c') : call.answer.finishes = true := by
  refine Ctx.lawful_methods.finishes_of_done h fun r chunks => ?_
  cases call <;> simp [Call.answer]

/-- A `sendfile` that is turned down before anything has happened. -/
def Refused : Call (List Bytes) → Prop
  | .complete _ _ => False
  | .stream _ _ => False
  | .sendfile response count _ _ => declaredLength response.headers none ≠ some (some (count : Int))

instance : (call : Call (List Bytes)) → Decidable (Refused call)
  | .complete _ _ => inferInstanceAs (Decidable False)
  | .stream _ _ => inferInstanceAs (Decidable False)
  | .sendfile _ _ _ _ => inferInstanceAs (Decidable (_ ≠ _))

theorem answer_refused {call : Call (List Bytes)} (h : Refused call) (c : Ctx) :
    Ctx.methods.answer call.answer c = .raised .valueError c := by
  cases call with
  | complete response body => exact absurd h id
  | stream response chunks => exact absurd h id
  | sendfile response count moved fails =>
    change c.sendfile response count moved fails = _
    rw [Ctx.sendfile, if_neg h]

/-- An answer that is not refused has written some of its bytes behind its head, however it ends. -/
theorem wrote_answer {call : Call (List Bytes)} (h : ¬Refused call) (c : Ctx) :
    Wrote (Ctx.answerBytes (c.started call.answer).bodyAllowed (c.started call.answer).chunked
      call.answer) (c.started call.answer) (Ctx.methods.answer call.answer c).state := by
  cases call with
  | complete response body =>
    refine Wrote.andThen (o := Ctx.methods.sendBody body (c.startResponse response)) ?_ ?_ ?_
    · cases body with
      | none => exact Wrote.refl _ _
      | some body => exact wrote_send body _
    · intro c' hc'
      cases body with
      | none =>
        cases hc'
        exact Ctx.Pushes.refl _
      | some body => exact Ctx.send_done hc'
    · intro c' hc'
      have hchunked : c'.chunked = (c.startResponse response).chunked := by
        cases body with
        | none =>
          cases hc'
          rfl
        | some body => exact (Ctx.send_done hc').chunked
      rw [Call.answer, Ctx.started, Answer.response, ← hchunked]
      exact wrote_flush _ c'
  | stream response chunks =>
    -- Each chunk is framed by itself, and the last one ends the body.
    refine Wrote.andThen (o := Ctx.methods.sendChunks chunks (c.startResponse response)) ?_ ?_ ?_
    · exact wrote_sendChunks chunks _
    · intro c' hc'
      exact Ctx.sendChunks_done hc'
    · intro c' hc'
      have hchunked := (Ctx.sendChunks_done hc').chunked
      rw [Call.answer, Ctx.started, Answer.response, ← hchunked]
      exact wrote_flush _ c'
  | sendfile response count moved fails =>
    change Wrote _ _ (c.sendfile response count moved fails).state
    have haccepted : declaredLength response.headers none = some (some (count : Int)) := not_not.1 h
    rw [Ctx.sendfile, if_pos haccepted]
    have hmove : Wrote ([] ++ moved) (c.startResponse response)
        (((c.startResponse response).flush []).andThen (Ctx.socketSendfile moved fails)).state :=
      Wrote.andThen (wrote_flush [] _) (fun c' hc' => Ctx.flush_done hc')
        fun c' _ => wrote_socketSendfile moved fails c'
    have hdone : ∀ c', ((c.startResponse response).flush []).andThen
      (Ctx.socketSendfile moved fails) =
        .done c' → Ctx.Pushes moved (c.startResponse response) c' := by
      intro c' hc'
      obtain ⟨c₁, hflush, hsend⟩ := Outcome.andThen_done hc'
      exact (Ctx.flush_done hflush).trans (Ctx.socketSendfile_done hsend)
    refine Wrote.andThen hmove hdone fun c' hc' => ?_
    have hchunked := (hdone c' hc').chunked
    rw [Call.answer, Ctx.started, Answer.response, ← hchunked]
    exact wrote_flush _ c'

/-- An answer that comes to its end has sent the head it started with. -/
theorem head_of_answer {call : Call (List Bytes)} (h : ¬Refused call) {c c' : Ctx}
    (hanswer : Ctx.methods.answer call.answer c = .done c') {r : Response}
    (hr : (c.started call.answer).out.pending = some r) : Item.head r ∈ c'.out.wire := by
  cases call with
  | complete response body =>
    obtain ⟨c₁, hbody, hend⟩ := Outcome.andThen_done hanswer
    -- the head is still pending behind the body, or is on the wire
    have hcarries : Carries r c₁ := by
      cases body with
      | none =>
        cases hbody
        exact .inl hr
      | some body => exact carries_send hbody (.inl hr)
    exact head_of_flush hend hcarries
  | stream response chunks =>
    obtain ⟨c₁, hchunks, hend⟩ := Outcome.andThen_done hanswer
    exact head_of_flush hend (carries_sendChunks hchunks (.inl hr))
  | sendfile response count moved fails =>
    change c.sendfile response count moved fails = .done c' at hanswer
    rw [Ctx.sendfile, if_pos (not_not.1 h)] at hanswer
    obtain ⟨c₂, hmove, hend⟩ := Outcome.andThen_done hanswer
    obtain ⟨c₁, hflush, hmove⟩ := Outcome.andThen_done hmove
    -- sendfile flushes the head before it moves anything
    have hhead : Item.head r ∈ c₁.out.wire := head_of_flush hflush (.inl hr)
    have hhead' : Item.head r ∈ c₂.out.wire := by
      cases fails with
      | false =>
        cases hmove
        exact List.mem_append_left _ hhead
      | true => cases hmove
    -- and the last flush takes nothing away
    exact head_of_flush hend (.inr hhead')

/-- On a socket that does not fail, an answer comes to its end, unless it is refused or its transfer
raises. -/
theorem answer_of_not_refused {call : Call (List Bytes)} (h : ¬Refused call)
    (htransfer : call.answer.finishes = true) {c : Ctx} (hfaults : c.out.faults = []) :
    ∃ c', Ctx.methods.answer call.answer c = .done c' := by
  refine Ctx.answer_of_no_faults hfaults htransfer fun r n moved fails hfile => ?_
  cases call with
  | complete response body => cases hfile
  | stream response chunks => cases hfile
  | sendfile response count moved' fails' =>
    cases hfile
    exact not_not.1 h

/-! ## What an old client can read -/

/-- The context when a request has been answered: the handler has made its call, and what it raised
has been recovered from. -/
def served (method : Bytes) (keepAlive closing : Bool) (call : Call (List Bytes))
    (faults : List (Option Nat)) :
    Ctx :=
  Ctx.methods.handle call.answer (Ctx.start method keepAlive closing faults)

/-- Where the handler runs. On the selector thread: the client still waits for 100 Continue when it
returns (`expects`), the message ends in the same read (`whole`), in which there is another head
(`followed`). On a worker: the response is finished before `_loop` looks at the connection again
(`early`), which then finds the message complete (`whole`); the selector is shutting down. -/
inductive Handling where
  | inline (expects whole followed : Bool)
  | pooled (early whole shuttingDown : Bool)
  deriving DecidableEq, Repr

/-- The connection behind the response, before the client sends anything more. The end of
`on_headers_complete` gives up a client that waits for 100 Continue; `_loop` closes at its head when
the message is complete, but a further head of the same read is answered before that. A worker gives
the connection back, which closes it only when the selector is shutting down. -/
def Handling.settle (c : Ctx) : Handling → Ctx
  | .inline expects whole followed =>
    let edge := expects && c.responseStatus.isSome
    if (whole || edge) && !followed && (c.closeAfterResponse || edge || !c.keepAlive) then c.close
    else c
  | .pooled early whole shuttingDown =>
    if shuttingDown || (early && whole && (c.closeAfterResponse || !c.keepAlive)) then c.close
    else c

/-- What happens to a connection that handles its first request so. -/
def Handling.acts (keepAlive hasClose : Bool) : Handling → List Base.Closing.Httptools.Act
  | .inline expects whole followed =>
    [.wake, .turn (.chunk ()), .request keepAlive none, .startResponse 0 hasClose,
      .finishResponse 0 false] ++ (if expects then [.expectEdge] else []) ++ [.handlerReturns] ++
      (if whole then [.messageComplete none] else []) ++
      (if followed then [.request true none, .handlerReturns] else []) ++ [.feedEnds, .turn .blocks]
  | .pooled early whole shuttingDown =>
    [.wake, .turn (.chunk ()), .request keepAlive none, .defer, .handlerReturns] ++
      (if whole then [.messageComplete none] else []) ++ [.feedEnds] ++
      if early then [.startResponse 0 hasClose, .finishResponse 0 shuttingDown, .turn .blocks]
      else [.turn .blocks, .startResponse 0 hasClose, .finishResponse 0 shuttingDown]

/-- The connection is left open in its own run exactly when it is behind the response. -/
theorem run_acts {c : Ctx} (hopen : c.isOpen = true) (hstarted : c.responseStatus.isSome = true)
    {hasClose : Bool}
    (hclose : c.closeAfterResponse = (hasClose || !c.keepAlive)) (handling : Handling) :
    (Base.Closing.Httptools.system.exec Base.Closing.Httptools.Conn.start
        (handling.acts c.keepAlive hasClose)).map (·.line.isOpen) =
      some (handling.settle c).isOpen := by
  have hif : ∀ p : Prop, ∀ _ : Decidable p, (if p then c.close else c).isOpen = !decide p := by
    intro p _
    split
    · simp [Ctx.close, *]
    · simp [*]
  cases handling with
  | inline expects whole followed =>
    rw [Handling.settle, hif, hclose, hstarted]
    cases c.keepAlive <;> cases hasClose <;> cases expects <;> cases whole <;>
      cases followed <;> rfl
  | pooled early whole shuttingDown =>
    rw [Handling.settle, hif, hclose]
    cases c.keepAlive <;> cases hasClose <;> cases early <;> cases whole <;>
      cases shuttingDown <;> rfl

/-- What is closed stays closed. -/
theorem isOpen_settle {c : Ctx} (h : c.isOpen = false) (handling : Handling) :
    (handling.settle c).isOpen = false := by
  cases handling with
  | inline expects whole followed =>
    rw [Handling.settle]
    split
    · rfl
    · exact h
  | pooled early whole shuttingDown =>
    rw [Handling.settle]
    split
    · rfl
    · exact h

/-- A client that knows no chunks can read the response: no head announces them, the body is what
was handed over, or the 500 in its place, and it ends with the connection or at its declared
length. -/
structure Readable (method : Bytes) (handling : Handling) (call : Call (List Bytes))
    (c : Ctx) : Prop where
  unchunked : ∀ r, Item.head r ∈ c.out.wire → (scanResponseHeaders r.headers).hasChunked = false
  raw : bodyBytes c.out.wire <+: call.answer.handed ∨ bodyBytes c.out.wire <+: internalErrorBody
  delimited : (handling.settle c).isOpen = false ∨
    (∃ r, Item.head r ∈ c.out.wire ∧ r.Declares (bodyBytes c.out.wire).length) ∨
    (bodyBytes c.out.wire = [] ∧
      ∀ r, Item.head r ∈ c.out.wire → responseAllowsBody method r.statusCode = false)

/-- The connection is closed behind a response. On the selector thread: it says so, or the request
did, the message has come to its end, and no other head is in the same read; on a worker: the
selector is shutting down, or the worker is early with such a response to a whole message. -/
def Closes (keepAlive closing : Bool) (r : Response) : Handling → Prop
  | .inline expects whole followed =>
    (closing = true ∨ (scanResponseHeaders r.headers).hasClose = true ∨ keepAlive = false ∨
      expects = true) ∧ (whole = true ∨ expects = true) ∧ followed = false
  | .pooled early whole shuttingDown =>
    shuttingDown = true ∨
      (closing = true ∨ (scanResponseHeaders r.headers).hasClose = true ∨ keepAlive = false) ∧
        early = true ∧ whole = true

/-- A response with the body `data` has framing headers of its own, and closes the connection or
declares the length of its body. -/
def Framed (method : Bytes) (closes : Prop) (r : Response) (data : Bytes) : Prop :=
  (responseAllowsBody method r.statusCode = true → (scanResponseHeaders r.headers).hasFraming =
    true) ∧ (closes ∨ responseAllowsBody method r.statusCode = false ∨ r.Declares data.length)

/-- The condition on the call that the context gets. -/
def CallFramed (method : Bytes) (closes : Prop) : Call (List Bytes) → Prop
  | .complete r body => Framed method closes r (body.getD [])
  | .stream r chunks => Framed method closes r chunks.flatten
  | .sendfile r count moved fails =>
    declaredLength r.headers none ≠ some (some (count : Int)) ∨ fails = true ∨ closes ∨
      r.Declares moved.length ∨ (responseAllowsBody method r.statusCode = false ∧ moved = [])

/-- The response allows no body, or has framing headers. -/
def HasFraming (method : Bytes) (call : Call (List Bytes)) : Prop :=
  responseAllowsBody method call.response.statusCode = true →
    (scanResponseHeaders call.response.headers).hasFraming = true

/-- A declared length comes from the call or from a header. -/
theorem framing_of_declaredLength {headers : List (Bytes × Bytes)} {n : Int} {declared : Option Int}
    (h : declaredLength headers declared = some (some n)) :
    declared = some n ∨ ∃ header ∈ headers, header.1.lower = Bytes.contentLengthName := by
  induction headers generalizing declared with
  | nil => exact .inl (Option.some.inj h)
  | cons header headers ih =>
    rw [declaredLength] at h
    split at h
    · cases h
    · split at h
      · rename_i hname
        exact .inr ⟨header, List.mem_cons_self, hname⟩
      · refine (ih h).imp id ?_
        rintro ⟨header', hmem, hname⟩
        exact ⟨header', List.mem_cons_of_mem _ hmem, hname⟩

/-- A `sendfile` that is accepted has framing headers. -/
theorem hasFraming_of_framed {method : Bytes} {closes : Prop} {call : Call (List Bytes)}
    (h : CallFramed method closes call) (haccepted : ¬Refused call) : HasFraming method call := by
  cases call with
  | complete r body => exact h.1
  | stream r chunks => exact h.1
  | sendfile r count moved fails =>
    intro _
    rcases framing_of_declaredLength (not_not.1 haccepted) with hnone | ⟨header, hmem, hname⟩
    · cases hnone
    · exact hasFraming_of_mem hmem hname

/-- The bytes behind the head are a beginning of what the handler has handed over. -/
theorem answerBytes_begins (allowed : Bool) (a : Answer) :
    Ctx.answerBytes allowed false a <+: a.handed := by
  cases allowed with
  | true =>
    refine ⟨[], ?_⟩
    rw [Ctx.answerBytes_raw, List.append_nil]
  | false =>
    cases a with
    | complete r body => cases body <;> exact List.nil_prefix
    | stream r chunks ending =>
      have hnone : Ctx.answerBytes false false (.stream r chunks ending) = [] := by
        rw [Ctx.answerBytes, if_neg Bool.false_ne_true, List.append_nil, List.flatMap_eq_nil_iff]
        exact fun _ _ => rfl
      rw [hnone]
      exact List.nil_prefix
    | sendfile r count moved fails =>
      exact ⟨[], (List.append_nil _).trans (List.append_nil _)⟩

section Started

variable {method : Bytes} (keepAlive closing : Bool) (faults : List (Option Nat))
  {call : Call (List Bytes)}

/-- With framing headers of its own that say nothing of chunks, the response starts as it is. -/
theorem started_framed (hframing : HasFraming method call)
    (hchunked : (scanResponseHeaders call.response.headers).hasChunked = false) :
    ((Ctx.start method keepAlive closing faults).started call.answer).out.pending =
    some call.response ∧
      ((Ctx.start method keepAlive closing faults).started call.answer).chunked = false := by
  have hnone : ¬(responseAllowsBody method call.response.statusCode &&
      !(scanResponseHeaders call.response.headers).hasFraming) = true := by
    intro hadded
    rw [Bool.and_eq_true, Bool.not_eq_true'] at hadded
    rw [hframing hadded.1] at hadded
    exact Bool.noConfusion hadded.2
  rw [Ctx.started, Call.response_answer]
  refine ⟨congrArg some (if_neg hnone), ?_⟩
  change (false || (responseAllowsBody method call.response.statusCode &&
    (!(scanResponseHeaders call.response.headers).hasFraming ||
      (scanResponseHeaders call.response.headers).hasChunked))) = false
  -- What is left of the flag is whether the coding has been added.
  rw [hchunked, Bool.or_false, Bool.false_or]
  exact Bool.eq_false_iff.2 hnone

/-- Without them, it is chunked. -/
theorem started_unframed (h : ¬HasFraming method call) :
    ∃ r, ((Ctx.start method keepAlive closing faults).started call.answer).out.pending = some r ∧
      (scanResponseHeaders r.headers).hasChunked = true := by
  rw [HasFraming, Classical.not_imp, Bool.not_eq_true] at h
  have hadded : (responseAllowsBody method call.response.statusCode &&
      !(scanResponseHeaders call.response.headers).hasFraming) = true := by
    rw [h.1, h.2]
    rfl
  rw [Ctx.started, Call.response_answer]
  exact ⟨_, congrArg some (if_pos hadded), hasChunked_append call.response.headers⟩

/-- What is out when an answer with framing headers ends, in whatever way. -/
theorem readable_answer (haccepted : ¬Refused call) (hframing : HasFraming method call)
    (hchunked : (scanResponseHeaders call.response.headers).hasChunked = false) {o : Out}
    (ho : o =
      (Ctx.methods.answer call.answer (Ctx.start method keepAlive closing faults)).state.out) :
    (∀ r, Item.head r ∈ o.wire → r = call.response) ∧ bodyBytes o.wire <+: call.answer.handed := by
  have hwrote := wrote_answer haccepted (Ctx.start method keepAlive closing faults)
  obtain ⟨hpending, hraw⟩ := started_framed keepAlive closing faults hframing hchunked
  rw [hraw] at hwrote
  rw [ho]
  refine ⟨fun r hr => ?_, ?_⟩
  · rcases hwrote.heads r hr with hstart | hstart
    · cases hstart
    · exact Option.some.inj (hstart.symm.trans hpending)
  · obtain ⟨part, hpart, hbody⟩ := hwrote.body
    have hempty : bodyBytes
      ((Ctx.start method keepAlive closing faults).started call.answer).out.wire =
        [] := rfl
    rw [hbody, hempty, List.nil_append]
    exact hpart.trans (answerBytes_begins _ _)

/-- What is out when an answer has come to its end. -/
theorem body_of_done (hframing : HasFraming method call)
    (hchunked : (scanResponseHeaders call.response.headers).hasChunked = false) {c : Ctx}
    (hanswer : Ctx.methods.answer call.answer (Ctx.start method keepAlive closing faults) =
      .done c) :
    bodyBytes c.out.wire =
        Ctx.answerBytes (responseAllowsBody method call.response.statusCode) false call.answer ∧
      c.isOpen = true ∧
      c.closeAfterResponse =
        (closing || ((scanResponseHeaders call.response.headers).hasClose || !keepAlive)) := by
  have hpush := Ctx.answer_done hanswer (finishes_of_answer hanswer)
  obtain ⟨-, hraw⟩ := started_framed keepAlive closing faults hframing hchunked
  refine ⟨?_, ?_, ?_⟩
  · rw [hpush.out.body, hraw, ← Call.response_answer]
    rfl
  · rw [hpush.frame]
    rfl
  · rw [hpush.closeAfterResponse, ← Call.response_answer]
    rfl

end Started

/-- The 500 is the answer of a handler that completes with it. -/
def internalErrorCall : Call (List Bytes) :=
  .complete internalErrorResponse (some internalErrorBody)

/-- What is out when the 500 has been sent, or its sending has failed. -/
theorem readable_internalError (method : Bytes) (keepAlive closing : Bool) (handling : Handling)
    (faults : List (Option Nat)) (call : Call (List Bytes)) {c : Ctx}
    (hout : c.out =
      (Ctx.methods.answer internalError (Ctx.start method keepAlive closing faults)).state.out)
    (hend : c.isOpen = false ∨
      Ctx.methods.answer internalError (Ctx.start method keepAlive closing faults) = .done c) :
    Readable method handling call c := by
  have haccepted : ¬Refused internalErrorCall := id
  have hframing : HasFraming method internalErrorCall := fun _ => by decide
  have hchunked :
      (scanResponseHeaders internalErrorCall.response.headers).hasChunked = false := by decide
  obtain ⟨hheads, hbody⟩ :=
    readable_answer keepAlive closing faults haccepted hframing hchunked hout
  -- every head on the wire is the one of the 500
  refine ⟨fun r hr => ?_, .inr hbody, ?_⟩
  · rw [hheads r hr]
    exact hchunked
  -- it is delimited by its length, or by having no body
  · refine hend.imp (fun hclosed => isOpen_settle hclosed handling) fun hdone => ?_
    obtain ⟨hbytes, -, -⟩ := body_of_done keepAlive closing faults hframing hchunked hdone
    obtain ⟨hpending, -⟩ := started_framed keepAlive closing faults hframing hchunked
    have hhead := head_of_answer haccepted hdone hpending
    cases hallowed : responseAllowsBody method internalErrorCall.response.statusCode with
    | true =>
      rw [hallowed, Ctx.answerBytes_raw] at hbytes
      rw [hbytes]
      exact .inl ⟨_, hhead, by decide⟩
    -- a method without a body: nothing is written behind the head
    | false =>
      rw [hallowed] at hbytes
      refine .inr ⟨hbytes, fun r hr => ?_⟩
      rw [hheads r hr]
      exact hallowed

/-- A call that is not refused has started its response. -/
theorem status_answer {call : Call (List Bytes)} (haccepted : ¬Refused call) (c : Ctx) :
    (Ctx.methods.answer call.answer c).state.responseStatus = some call.response.statusCode := by
  cases call with
  | complete r body => exact Ctx.lawful_methods.complete_status r body c
  | stream r chunks =>
    refine Ctx.methods.status_andThen
      (Ctx.methods.status_andThen (Ctx.lawful_methods.startResponse r c)
      fun c₁ hc₁ => Ctx.lawful_methods.sendChunks chunks hc₁) fun c₁ hc₁ => ?_
    exact (Ctx.lawful_methods.finishResponse c₁).trans hc₁
  | sendfile r count moved fails =>
    change (c.sendfile r count moved fails).state.responseStatus = _
    rw [Ctx.sendfile, if_pos (not_not.1 haccepted)]
    refine Ctx.methods.status_andThen
      (Ctx.methods.status_andThen (Ctx.flush_status [] (c.startResponse r))
      fun c₁ hc₁ => ?_) fun c₁ hc₁ => (Ctx.flush_status _ c₁).trans hc₁
    rw [Ctx.socketSendfile]
    cases fails with
    | false => exact hc₁
    | true => exact hc₁

/-- The context after a call that is not refused: what it leaves, or the same closed. -/
theorem served_cases (method : Bytes) (keepAlive closing : Bool) {call : Call (List Bytes)}
    (haccepted : ¬Refused call) (faults : List (Option Nat)) :
    Ctx.methods.answer call.answer (Ctx.start method keepAlive closing faults) =
        .done (served method keepAlive closing call faults) ∨
      served method keepAlive closing call faults =
        (Ctx.methods.answer call.answer
          (Ctx.start method keepAlive closing faults)).state.close := by
  rw [served, NativeReqCtx.handle]
  cases hanswer : Ctx.methods.answer call.answer (Ctx.start method keepAlive closing faults) with
  | done c => exact .inl rfl
  | raised e c =>
    right
    have hstatus : Ctx.methods.responseStatus c = some call.response.statusCode := by
      have hstate := status_answer haccepted (Ctx.start method keepAlive closing faults)
      rw [hanswer] at hstate
      exact hstate
    -- The response has begun, so all that can be done is to close.
    change Ctx.methods.emitHandlerError c = c.close
    rw [NativeReqCtx.emitHandlerError, hstatus, if_neg (by simp)]
    rfl

/-- The context after a refused call: the 500, or its sending has failed. -/
theorem served_refused (method : Bytes) (keepAlive closing : Bool) (handling : Handling)
    {call : Call (List Bytes)} (hrefused : Refused call) (faults : List (Option Nat)) :
    Readable method handling call (served method keepAlive closing call faults) := by
  rw [served, NativeReqCtx.handle, answer_refused hrefused]
  -- Nothing has begun, so the handler's error is answered with the 500.
  change Readable method handling call
    (Ctx.methods.emitHandlerError (Ctx.start method keepAlive closing faults))
  have hnone : Ctx.methods.responseStatus (Ctx.start method keepAlive closing faults) = none := rfl
  rw [NativeReqCtx.emitHandlerError, if_pos hnone]
  cases hanswer : Ctx.methods.answer internalError (Ctx.start method keepAlive closing faults) with
  | done c =>
    refine readable_internalError method keepAlive closing handling faults call ?_ (.inr hanswer)
    rw [hanswer]
    rfl
  | raised e c =>
    refine readable_internalError method keepAlive closing handling faults call ?_ (.inl rfl)
    rw [hanswer]
    rfl

/-- The end of the body `data` can be told. -/
def Told (method : Bytes) (closes : Prop) (r : Response) (data : Bytes) : Prop :=
  closes ∨ r.Declares data.length ∨ (data = [] ∧ responseAllowsBody method r.statusCode = false)

theorem answerBytes_not_allowed {call : Call (List Bytes)}
    (hcall : ∀ r count moved fails, call ≠ .sendfile r count moved fails) :
    Ctx.answerBytes false false call.answer = [] := by
  cases call with
  | complete r body => cases body <;> rfl
  | stream r chunks =>
    rw [Call.answer, Ctx.answerBytes, if_neg Bool.false_ne_true, List.append_nil,
      List.flatMap_eq_nil_iff]
    exact fun _ _ => rfl
  | sendfile r count moved fails => exact absurd rfl (hcall r count moved fails)

/-- An answer is framed exactly if it has framing headers and the end of its body can be told. -/
theorem framed_iff_told {method : Bytes} {closes : Prop} {call : Call (List Bytes)}
    (hcall : ∀ r count moved fails, call ≠ .sendfile r count moved fails) :
    Framed method closes call.response call.answer.handed ↔ HasFraming method call ∧
      Told method closes call.response
        (Ctx.answerBytes (responseAllowsBody method call.response.statusCode)
          false call.answer) := by
  rw [Framed, HasFraming, Told]
  cases hallowed : responseAllowsBody method call.response.statusCode with
  | true =>
    rw [Ctx.answerBytes_raw]
    simp
  | false =>
    rw [answerBytes_not_allowed hcall]
    simp

/-- Of a call that comes to its end: it is framed when it has framing headers and the end of the
bytes that go out can be told. -/
theorem callFramed_iff {method : Bytes} {closes : Prop} {call : Call (List Bytes)}
    (haccepted : ¬Refused call) (hfinish : call.answer.finishes = true) :
    CallFramed method closes call ↔ HasFraming method call ∧
      Told method closes call.response
        (Ctx.answerBytes (responseAllowsBody method call.response.statusCode)
          false call.answer) := by
  cases call with
  | complete r body =>
    have hcall : ∀ r' count moved fails, (Call.complete r body : Call (List Bytes)) ≠
        .sendfile r' count moved fails := by
      intro r' count moved fails h
      cases h
    exact framed_iff_told hcall
  | stream r chunks =>
    have hcall : ∀ r' count moved fails, (Call.stream r chunks : Call (List Bytes)) ≠
        .sendfile r' count moved fails := by
      intro r' count moved fails h
      cases h
    exact framed_iff_told hcall
  -- a sendfile that is refused or fails is excluded; what it moves is its body
  | sendfile r count moved fails =>
    have hreturns : fails = false := by
      rw [Call.answer, Answer.finishes, Bool.not_eq_true'] at hfinish
      exact hfinish
    have hmoved : Ctx.answerBytes (responseAllowsBody method r.statusCode) false
        (Call.answer (.sendfile r count moved fails)) = moved := List.append_nil moved
    constructor
    · intro h
      refine ⟨hasFraming_of_framed h haccepted, ?_⟩
      rw [Call.response, hmoved]
      rcases h with hrefused | hfails | hcloses | hdeclares | hnone
      · exact absurd hrefused haccepted
      · rw [hreturns] at hfails
        cases hfails
      · exact .inl hcloses
      · exact .inr (.inl hdeclares)
      · exact .inr (.inr ⟨hnone.2, hnone.1⟩)
    · rintro ⟨-, htold⟩
      rw [Call.response, hmoved] at htold
      rcases htold with hcloses | hdeclares | hnone
      · exact .inr (.inr (.inl hcloses))
      · exact .inr (.inr (.inr (.inl hdeclares)))
      · exact .inr (.inr (.inr (.inr ⟨hnone.2, hnone.1⟩)))

/-- Behind an answer that has come to its end, the connection is closed where it `Closes`. -/
theorem settle_iff {method : Bytes} {keepAlive closing : Bool} {faults : List (Option Nat)}
    {call : Call (List Bytes)} (haccepted : ¬Refused call) (hframing : HasFraming method call)
    (hchunked : (scanResponseHeaders call.response.headers).hasChunked = false) {c : Ctx}
    (hdone : Ctx.methods.answer call.answer (Ctx.start method keepAlive closing faults) = .done c)
    (handling : Handling) :
    (handling.settle c).isOpen = false ↔ Closes keepAlive closing call.response handling := by
  obtain ⟨-, hopen, hclose⟩ := body_of_done keepAlive closing faults hframing hchunked hdone
  have hkeepAlive : c.keepAlive = keepAlive := by
    rw [(Ctx.answer_done hdone (finishes_of_answer hdone)).frame]
    rfl
  have hstarted : c.responseStatus = some call.response.statusCode := by
    have hstate := status_answer haccepted (Ctx.start method keepAlive closing faults)
    rw [hdone] at hstate
    exact hstate
  -- `settle` closes under one condition; the rest compares it with `Closes`
  have hif : ∀ p : Prop, ∀ _ : Decidable p, (if p then c.close else c).isOpen = false ↔ p := by
    intro p _
    split
    · simp [Ctx.close, *]
    · simp [*]
  -- on the selector thread: the flags of the response, and what the same read has brought
  cases handling with
  | inline expects whole followed =>
    rw [Handling.settle, hif, hclose, hstarted, hkeepAlive, Closes]
    simp only [Option.isSome_some, Bool.and_true, Bool.and_eq_true,
      Bool.or_eq_true, Bool.not_eq_true']
    tauto
  -- on a worker: the shutdown, or the turn of `_loop` that finds the response ended
  | pooled early whole shuttingDown =>
    rw [Handling.settle, hif, hclose, hkeepAlive, Closes]
    simp only [Bool.and_eq_true, Bool.or_eq_true, Bool.not_eq_true']
    tauto

/-- When an answer with framing headers has come to its end, the client can read it exactly when the
end of its bytes can be told. -/
theorem readable_done_iff {method : Bytes} {keepAlive closing : Bool} {handling : Handling}
    {faults : List (Option Nat)}
    {call : Call (List Bytes)} (haccepted : ¬Refused call) (hframing : HasFraming method call)
    (hchunked : (scanResponseHeaders call.response.headers).hasChunked = false) {c : Ctx}
    (hdone : Ctx.methods.answer call.answer (Ctx.start method keepAlive closing faults) = .done c) :
    Readable method handling call c ↔
      Told method (Closes keepAlive closing call.response handling) call.response
        (Ctx.answerBytes (responseAllowsBody method call.response.statusCode)
          false call.answer) := by
  obtain ⟨hheads, hbody⟩ := readable_answer keepAlive closing faults haccepted hframing hchunked
    (o := c.out) (by rw [hdone]; rfl)
  obtain ⟨hbytes, -, -⟩ := body_of_done keepAlive closing faults hframing hchunked hdone
  obtain ⟨hpending, -⟩ := started_framed keepAlive closing faults hframing hchunked
  have hhead := head_of_answer haccepted hdone hpending
  rw [← hbytes]
  have hcloses := settle_iff haccepted hframing hchunked hdone handling
  -- The head on the wire is the one of the response, and the body is what was answered.
  constructor
  · intro h
    rcases h.delimited with hclosed | ⟨r, hr, hdeclares⟩ | ⟨hnone, hnot⟩
    · exact .inl (hcloses.1 hclosed)
    · rw [hheads r hr] at hdeclares
      exact .inr (.inl hdeclares)
    · exact .inr (.inr ⟨hnone, hnot _ hhead⟩)
  · intro htold
    refine ⟨fun r hr => ?_, .inl hbody, ?_⟩
    · rw [hheads r hr]
      exact hchunked
    · rcases htold with hclosing | hdeclares | ⟨hnone, hnot⟩
      · exact .inl (hcloses.2 hclosing)
      · exact .inr (.inl ⟨_, hhead, hdeclares⟩)
      · refine .inr (.inr ⟨hnone, fun r hr => ?_⟩)
        rw [hheads r hr]
        exact hnot

/-- For the call that the context gets: the client can read the response, whatever the socket does,
exactly when the call is framed. -/
theorem readable_served_iff (method : Bytes) (keepAlive closing : Bool) (handling : Handling)
    {call : Call (List Bytes)}
    (hchunked : (scanResponseHeaders call.response.headers).hasChunked = false) :
    (∀ faults, Readable method handling call (served method keepAlive closing call faults)) ↔
      CallFramed method (Closes keepAlive closing call.response handling) call := by
  constructor
  · intro h
    by_cases hrefused : Refused call
    · cases call with
      | complete r body => exact absurd hrefused id
      | stream r chunks => exact absurd hrefused id
      | sendfile r count moved fails => exact .inl hrefused
    by_cases hfinish : call.answer.finishes = true
    · -- On a socket without faults the answer comes to its end.
      obtain ⟨c, hdone⟩ :=
        answer_of_not_refused hrefused hfinish (c := Ctx.start method keepAlive closing []) rfl
      have hserved : served method keepAlive closing call [] = c := by
        rw [served, NativeReqCtx.handle, hdone]
      have hreadable := h []
      rw [hserved] at hreadable
      have hframing : HasFraming method call := by
        by_contra hunframed
        obtain ⟨r, hpending, hannounced⟩ := started_unframed keepAlive closing [] hunframed
        rw [hreadable.unchunked r (head_of_answer hrefused hdone hpending)] at hannounced
        cases hannounced
      exact (callFramed_iff hrefused hfinish).2
        ⟨hframing, (readable_done_iff hrefused hframing hchunked hdone).1 hreadable⟩
    · -- Only a transfer can raise by itself.
      cases call with
      | complete r body => exact absurd rfl hfinish
      | stream r chunks => exact absurd rfl hfinish
      | sendfile r count moved fails =>
        rw [Call.answer, Answer.finishes, Bool.not_eq_true', Bool.not_eq_false] at hfinish
        exact .inr (.inl hfinish)
  -- The answer comes to its end, or a fault closes the connection, which ends any body.
  · intro hframed faults
    by_cases hrefused : Refused call
    · exact served_refused method keepAlive closing handling hrefused faults
    · have hframing := hasFraming_of_framed hframed hrefused
      rcases served_cases method keepAlive closing hrefused faults with hdone | hclosed
      · have htold := (callFramed_iff hrefused (finishes_of_answer hdone)).1 hframed
        exact (readable_done_iff hrefused hframing hchunked hdone).2 htold.2
      · obtain ⟨hheads, hbody⟩ :=
          readable_answer keepAlive closing faults hrefused hframing hchunked rfl
        rw [hclosed]
        refine ⟨fun r hr => ?_, .inl hbody, .inl (isOpen_settle rfl handling)⟩
        rw [hheads r hr]
        exact hchunked

end LocalPost.Http.Compress
