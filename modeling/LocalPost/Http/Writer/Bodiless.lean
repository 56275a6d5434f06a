import LocalPost.Http.Routing.Dispatch
import LocalPost.Http.Writer.Framing

/-!
# Responses without a body

A response to a HEAD request, and one with status 204 or 304, is its head alone. httptools keeps the
bytes of `complete` and `stream` back and sends those of `sendfile`. On h11 the parser refuses them
instead, so an answer that brings a body is not written at all; every answer that the framework
makes itself brings one.
-/

set_option autoImplicit false

namespace LocalPost.Http.Writer

open LocalPost.Core

universe u

/-- A head with this status and no byte behind it. -/
def Bodiless (statusCode : Nat) (wire : List Item) : Prop :=
  ∃ r, r.statusCode = statusCode ∧ HeadAnd r [] wire

theorem not_bodiless_nil (statusCode : Nat) : ¬Bodiless statusCode [] := by
  rintro ⟨r, -, items, hwire, -⟩
  cases hwire

/-! ## The answers of the framework -/

/-- A text of the router as bytes. -/
def textBytes (s : Str) : Bytes := s.map fun c => UInt8.ofNat c.toNat

/-- A response of the router. -/
def ofRouting (r : Routing.Response) : Response where
  statusCode := r.statusCode
  headers := r.headers.map fun header => (textBytes header.1, textBytes header.2)
  reason := textBytes r.reason

/-- `PAYLOAD_TOO_LARGE_BODY`. -/
def payloadTooLargeBody : Bytes := textBytes "Payload Too Large".toList

/-- `PAYLOAD_TOO_LARGE_RESPONSE`. -/
def payloadTooLargeResponse : Response where
  statusCode := 413
  headers := [(textBytes "content-type".toList, textBytes "text/plain; charset=utf-8".toList),
    (Bytes.contentLengthName, textBytes "17".toList), (connectionName, closeValue)]
  reason := []

/-- The 413 of the pool. -/
def payloadTooLarge : Answer := .complete payloadTooLargeResponse (some payloadTooLargeBody)

/-- A response that the framework makes itself: the router's, the 500 for a handler that raised
before responding, the pool's 413. -/
inductive Canned where
  | router (response : Routing.Response) (body : Str)
  | handlerError
  | payloadTooLarge

/-- Its response and its body. -/
def Canned.answer : Canned → Answer
  | .router response body => .complete (ofRouting response) (some (textBytes body))
  | .handlerError => internalError
  | .payloadTooLarge => Writer.payloadTooLarge

/-- A router answers so to some request. -/
def Canned.FromRouter (H : Type u) : Canned → Prop
  | .router response body =>
    ∃ (U : Routing.Unicode) (rs : Routing.Routes H) (router : Routing.Router H)
      (path methodStr : Str), Routing.Router.fromRoutes U rs = some router ∧
        router.dispatch path methodStr = some (.answered response body)
  | .handlerError => True
  | .payloadTooLarge => True

namespace NativeReqCtx

variable {σ : Type} (K : NativeReqCtx σ)

/-- `_emit_body_too_large`. -/
def emitBodyTooLarge (c : σ) : σ :=
  if K.responseStatus c = none then
    match K.answer payloadTooLarge c with
    | .done c => c
    | .raised _ c => K.close c
  else K.close c

/-- The context after a response of the framework: the router's is made by a handler, the others
take the place of a handler's. -/
def emit : Canned → σ → σ
  | .router response body, c => K.handle (Canned.router response body).answer c
  | .handlerError, c => K.emitHandlerError c
  | .payloadTooLarge, c => K.emitBodyTooLarge c

/-- On a new request the answer goes out, or the connection is closed behind what there is of it. -/
theorem emit_cases {isOpen : σ → Bool} (hK : K.Lawful isOpen) (canned : Canned) {c : σ}
    (hc : K.responseStatus c = none) :
    K.answer canned.answer c = .done (K.emit canned c) ∨
      ∃ e c', K.answer canned.answer c = .raised e c' ∧ K.emit canned c = K.close c' := by
  -- a call that has raised has set the status first
  have hraised : ∀ {a : Answer} {e : Exc} {c' : σ}, (∃ r body, a = .complete r body) →
      K.answer a c = .raised e c' → K.responseStatus c' ≠ none := by
    rintro a e c' ⟨r, body, rfl⟩ h hnone
    have hstatus := hK.complete_status r body c
    rw [h, Outcome.state, hnone] at hstatus
    cases hstatus
  cases canned with
  -- the router's answer: no handler error on top of it, as a response has been started
  | router response body =>
    rw [emit, handle]
    cases h : K.answer (Canned.router response body).answer c with
    | done c' => exact .inl rfl
    | raised e c' =>
      refine .inr ⟨e, c', rfl, ?_⟩
      exact if_neg (hraised ⟨_, _, rfl⟩ h)
  -- the other two are made by the server, which closes the connection when they raise
  | handlerError =>
    rw [emit, emitHandlerError, if_pos hc, Canned.answer]
    cases h : K.answer internalError c with
    | done c' => exact .inl rfl
    | raised e c' => exact .inr ⟨e, c', rfl, rfl⟩
  | payloadTooLarge =>
    rw [emit, emitBodyTooLarge, if_pos hc, Canned.answer]
    cases h : K.answer Writer.payloadTooLarge c with
    | done c' => exact .inl rfl
    | raised e c' => exact .inr ⟨e, c', rfl, rfl⟩

end NativeReqCtx

/-! ## The router's body -/

/-- The loop answers with the body of every 405. -/
theorem matchLoop_body {H : Type u} {path : Str} {method : Option Routing.HTTPMethod}
    {routes : List (Routing.Route H)} {allowed : List Routing.HTTPMethod} {matched : Nat}
    {single : Option (Routing.Response × Str)} {response : Routing.Response} {body : Str}
    (hroutes : ∀ route ∈ routes, route.method_not_allowed.2 = Routing.methodNotAllowedBody)
    (hsingle : ∀ answer, single = some answer → answer.2 = Routing.methodNotAllowedBody)
    (h : Routing.Router.matchLoop path method routes allowed matched single =
      some (.methodNotAllowed response body)) : body = Routing.methodNotAllowedBody := by
  induction routes generalizing allowed matched single with
  | nil =>
    rw [Routing.Router.matchLoop] at h
    -- no route is left: one that has matched answers, or there was none
    split at h
    · obtain ⟨answer, hanswer, heq⟩ := Option.map_eq_some_iff.1 h
      cases heq
      exact hsingle answer hanswer
    · split at h
      · cases h
        rfl
      · cases h
  | cons route routes ih =>
    obtain ⟨hroute, hroutes'⟩ := List.forall_mem_cons.1 hroutes
    rw [Routing.Router.matchLoop] at h
    -- a route that does not match; one that matches without the method; one with it
    split at h
    · exact ih hroutes' hsingle h
    · split at h
      · refine ih hroutes' (fun answer hanswer => ?_) h
        cases hanswer
        exact hroute
      · cases h

/-- Every answer of the framework has a body. -/
theorem Canned.exists_body {H : Type u} {canned : Canned} (h : canned.FromRouter H) :
    ∃ r body, canned.answer = .complete r (some body) ∧ body ≠ [] := by
  cases canned with
  | router response body =>
    refine ⟨_, _, rfl, ?_⟩
    obtain ⟨U, rs, router, path, methodStr, hrouter, hdispatch⟩ := h
    obtain ⟨result, hmatch, houtcome⟩ := Option.map_eq_some_iff.1 hdispatch
    -- the router answers with one of two fixed bodies
    have hbody : body = Routing.notFoundBody ∨ body = Routing.methodNotAllowedBody := by
      rw [Routing.Router.match?] at hmatch
      split at hmatch
      · cases hmatch
        cases houtcome
        exact .inl rfl
      · cases result with
        | ok handler found => cases houtcome
        | notFound =>
          cases houtcome
          exact .inl rfl
        | methodNotAllowed response' body' =>
          cases houtcome
          refine .inr
            (matchLoop_body (fun route hroute => ?_) (fun answer hanswer => by cases hanswer)
            hmatch)
          rw [Routing.Router.fromRoutes] at hrouter
          split at hrouter
          · obtain ⟨regex, -, rfl⟩ := Option.map_eq_some_iff.1 hrouter
            obtain ⟨item, -, rfl⟩ := List.mem_map.1 hroute
            rfl
          · cases hrouter
    rcases hbody with rfl | rfl
    · decide
    · decide
  | handlerError => exact ⟨_, _, rfl, by decide⟩
  | payloadTooLarge => exact ⟨_, _, rfl, by decide⟩

/-! ## httptools -/

namespace Httptools.Ctx

/-- The bytes that pass the context by. -/
def fileBytes : Answer → Bytes
  | .complete _ _ => []
  | .stream _ _ _ => []
  | .sendfile _ _ moved _ => moved

/-- What an answer leaves on the wire: its head, and the bytes behind it. -/
theorem headAnd_answer {a : Answer} {c c' : Ctx} (hwire : c.out.wire = [])
    (h : methods.answer a c = .done c') (hfinish : a.finishes = true) :
    HeadAnd (c.headOf a.response)
      (answerBytes (c.started a).bodyAllowed (c.started a).chunked a) c'.out.wire := by
  cases a with
  | complete response body =>
    obtain ⟨c₁, hbody, hend⟩ := Outcome.andThen_done h
    have hstart := @behind_startResponse response c hwire
    cases body with
    | none =>
      cases hbody
      exact hstart.flush (flush_done_out hend)
    | some body =>
      have hsend : (c.startResponse response).send body = .done c₁ := hbody
      have hflush := (behind_send hstart hsend).flush (flush_done_out hend)
      rw [(send_done hsend).chunked, List.nil_append] at hflush
      exact hflush
  | stream response chunks ending =>
    obtain ⟨c₁, hchunks, hend⟩ := Outcome.andThen_done h
    have hsend : methods.sendChunks chunks (c.startResponse response) = .done c₁ := hchunks
    have hending : ending = .finished := of_decide_eq_true hfinish
    rw [hending] at hend
    have hfinishes : c₁.finishResponse = .done c' := hend
    have hbehind := behind_sendChunks (@behind_startResponse response c hwire) hsend
    have hflush := hbehind.flush (flush_done_out hfinishes)
    rw [(sendChunks_done hsend).chunked, List.nil_append] at hflush
    exact hflush
  | sendfile response count moved fails =>
    have hsendfile : c.sendfile response count moved fails = .done c' := h
    rw [sendfile] at hsendfile
    split at hsendfile
    · obtain ⟨c₂, hmove, hend⟩ := Outcome.andThen_done hsendfile
      obtain ⟨c₁, hflush, hmove⟩ := Outcome.andThen_done hmove
      have hhead := (@behind_startResponse response c hwire).flush (flush_done_out hflush)
      have hpush := socketSendfile_done hmove
      -- `socket.sendfile` writes behind the buffer, which was flushed before it.
      have hmoved : c₂.out = { c₁.out with wire := c₁.out.wire ++ [.bytes moved] } := by
        cases fails with
        | false =>
          cases hmove
          rfl
        | true => cases hmove
      have hbehind : c₂.out.Behind (c.headOf response) moved := by
        refine .inr ⟨?_, ?_⟩
        · rw [hmoved]
          have hnone : c₁.out.pending = none := Out.flush_pending (flush_done_out hflush)
          exact hnone
        · rw [hmoved]
          exact hhead.append moved
      have hlast := hbehind.flush (flush_done_out hend)
      rw [hpush.chunked, (flush_done hflush).chunked] at hlast
      exact hlast
    · cases hsendfile

theorem headOf_statusCode (c : Ctx) (r : Response) : (c.headOf r).statusCode = r.statusCode := by
  rw [headOf]
  split
  · rfl
  · rfl

theorem HeadAnd_unique {r r' : Response} {b b' : Bytes} {wire : List Item} (h : HeadAnd r b wire)
    (h' : HeadAnd r' b' wire) : b = b' := by
  obtain ⟨items, rfl, -, rfl⟩ := h
  obtain ⟨items', heq, -, rfl⟩ := h'
  rw [(List.cons.inj heq).2]

/-- Where no body is allowed, only the bytes of a file follow the head. -/
theorem answerBytes_quiet {a : Answer} {c : Ctx} (hchunked : c.chunked = false)
    (hquiet : responseAllowsBody c.method a.response.statusCode = false) :
    answerBytes (c.started a).bodyAllowed (c.started a).chunked a = fileBytes a := by
  have hallowed : (c.started a).bodyAllowed = false := hquiet
  have hplain : (c.started a).chunked = false := by
    change (c.chunked || (responseAllowsBody c.method a.response.statusCode && _)) = false
    rw [hchunked, hquiet]
    rfl
  rw [hallowed, hplain]
  by_cases hfile : ∀ r n moved fails, a ≠ .sendfile r n moved fails
  · rw [answerBytes_notAllowed hfile]
    cases a with
    | complete response body => rfl
    | stream response chunks ending => rfl
    | sendfile response count moved fails => exact absurd rfl (hfile response count moved fails)
  · push Not at hfile
    obtain ⟨response, count, moved, fails, rfl⟩ := hfile
    exact List.append_nil moved

/-- Where no body is allowed an answer is its head alone exactly when no byte of a file is moved. -/
theorem bodiless_answer_iff {a : Answer} {c c' : Ctx} (hwire : c.out.wire = [])
    (hchunked : c.chunked = false)
    (hquiet : responseAllowsBody c.method a.response.statusCode = false)
    (h : methods.answer a c = .done c') (hfinish : a.finishes = true) :
    Bodiless a.response.statusCode c'.out.wire ↔ fileBytes a = [] := by
  have hhead := headAnd_answer hwire h hfinish
  rw [answerBytes_quiet hchunked hquiet] at hhead
  constructor
  · rintro ⟨r, -, hbodiless⟩
    exact HeadAnd_unique hhead hbodiless
  · intro hnone
    rw [hnone] at hhead
    exact ⟨_, headOf_statusCode c a.response, hhead⟩

end Httptools.Ctx

/-! ## h11 -/

namespace H11.Ctx

variable {ω : Type} {W : Connection ω} {framing : ω → Framing} {closing : ω → Bool}
  {closes : Bytes → Bool → Response → Bool}

theorem startResponse_raised {r : Response} {c c' : Ctx ω} {e : Exc}
    (h : c.startResponse W r = .raised e c') : e = .localProtocolError ∧ c'.out = c.out := by
  rw [startResponse] at h
  split at h
  · cases h
    exact ⟨rfl, rfl⟩
  · cases h

/-- The parser has no room for the body of an answer to HEAD. -/
theorem sendData_head (hW : W.Documented framing closing closes) {keepAlive : Bool}
    {r head : Response} {w : ω}
    (hsend : W.sendResponse (W.start headMethod keepAlive) r = some (head, w))
    {body : Bytes} (hbody : body ≠ []) : W.sendData w body = none := by
  cases hdata : W.sendData w body with
  | none => rfl
  | some result =>
    obtain ⟨-, -, hframing, -⟩ := hW.response _ _ _ _ _ hsend
    obtain ⟨-, hstep, -⟩ := hW.data _ _ _ _ hdata
    rw [hframing rfl, Framing.step] at hstep
    split at hstep
    · rename_i hle
      exact absurd (List.length_eq_zero_iff.1 (Nat.le_zero.1 hle)) hbody
    · cases hstep

/-- So the answer raises, and nothing of it is written. -/
theorem answer_head_raises (hW : W.Documented framing closing closes) (r : Response) {body : Bytes}
    (hbody : body ≠ []) (keepAlive drained : Bool) (faults : List (Option Nat)) :
    ∃ c', (methods W).answer (.complete r (some body))
      (start W headMethod keepAlive drained faults) =
      .raised .localProtocolError c' ∧ c'.out.wire = [] := by
  change ∃ c', (((start W headMethod keepAlive drained faults).startResponse W r).andThen
    ((methods W).sendBody (some body))).andThen (finishResponse W) = _ ∧ _
  cases hstart : (start W headMethod keepAlive drained faults).startResponse W r with
  | raised e c₁ =>
    obtain ⟨rfl, hout⟩ := startResponse_raised hstart
    exact ⟨c₁, rfl, by rw [hout]; rfl⟩
  | done c₁ =>
    obtain ⟨head, w, hsend, rfl⟩ := startResponse_done hstart
    have hnone : W.sendData w body = none := sendData_head hW hsend hbody
    refine ⟨started r head w (start W headMethod keepAlive drained faults), ?_, rfl⟩
    change ((started r head w (start W headMethod keepAlive drained faults)).send
      W body).andThen _ = _
    rw [send, show (started r head w (start W headMethod keepAlive drained faults)).parser =
      w from rfl, hnone]
    rfl

end H11.Ctx

/-! ## The exact condition -/

/-- A native backend. -/
inductive Backend where
  | h11
  | httptools
  deriving DecidableEq, Repr

/-- The wire after a response of the framework to a HEAD request. The two flags of the connection
are the ones that the contexts start with. -/
def Backend.wire {ω : Type} (W : H11.Connection ω) (canned : Canned) (keepAlive flag : Bool) :
    Backend → List Item
  | .h11 =>
    ((H11.Ctx.methods W).emit canned (H11.Ctx.start W headMethod keepAlive flag [])).out.wire
  | .httptools =>
    (Httptools.Ctx.methods.emit canned (Httptools.Ctx.start headMethod keepAlive flag [])).out.wire

/-- On h11 a canned answer to `HEAD` sends no body. -/
theorem bodiless_h11 {ω : Type} {W : H11.Connection ω} {framing : ω → H11.Framing}
    {closing : ω → Bool} {closes : Bytes → Bool → Response → Bool}
    (hW : W.Documented framing closing closes)
    {H : Type u} {canned : Canned} (hcanned : canned.FromRouter H) (keepAlive flag : Bool) :
    Backend.wire W canned keepAlive flag .h11 = [] := by
  obtain ⟨r, body, hanswer, hbody⟩ := Canned.exists_body hcanned
  obtain ⟨c', hraised, hwire⟩ := H11.Ctx.answer_head_raises hW r hbody keepAlive flag []
  rw [← hanswer] at hraised
  rw [Backend.wire]
  rcases (H11.Ctx.methods W).emit_cases (H11.Ctx.lawful_methods W) canned
    (c := H11.Ctx.start W headMethod keepAlive flag []) rfl with hdone | ⟨e, c₁, hraised₁, hemit⟩
  · cases hraised.symm.trans hdone
  · cases hraised.symm.trans hraised₁
    rw [hemit]
    exact hwire

/-- On httptools a canned answer sends no body where its status allows none. -/
theorem bodiless_httptools {ω : Type} (W : H11.Connection ω) {H : Type u} {canned : Canned}
    (hcanned : canned.FromRouter H) (keepAlive flag : Bool) :
    Bodiless canned.answer.response.statusCode
      (Backend.wire W canned keepAlive flag .httptools) := by
  obtain ⟨r, body, hanswer, -⟩ := Canned.exists_body hcanned
  obtain ⟨c', hdone⟩ := Httptools.Ctx.answer_of_no_faults
    (a := canned.answer) (c := Httptools.Ctx.start headMethod keepAlive flag []) rfl
    (by rw [hanswer]; rfl) (by rw [hanswer]; rintro _ _ _ _ ⟨⟩)
  rw [Backend.wire]
  rcases Httptools.Ctx.methods.emit_cases Httptools.Ctx.lawful_methods canned
    (c := Httptools.Ctx.start headMethod keepAlive flag []) rfl with hemit | ⟨e, c₁, hraised, -⟩
  · refine (Httptools.Ctx.bodiless_answer_iff rfl rfl ?_ hemit ?_).2 ?_
    · rfl
    · rw [hanswer]
      rfl
    · rw [hanswer]
      rfl
  · cases hdone.symm.trans hraised

/-- A status without a body, or a response to HEAD. -/
theorem not_allowed {method : Bytes} {statusCode : Nat}
    (h : method = headMethod ∨ statusCode = 204 ∨ statusCode = 304) :
    responseAllowsBody method statusCode = false := by
  rcases h with rfl | rfl | rfl
  · rfl
  · rw [responseAllowsBody]
    exact Bool.and_false _
  · rw [responseAllowsBody]
    exact Bool.and_false _

/-- A response of the framework to HEAD is a head alone exactly on httptools; and what a handler
sends there to HEAD, or with 204 or 304, is one exactly when no byte of a file is moved. Without
faults of the socket it is sent. -/
theorem bodiless_iff {ω : Type} {W : H11.Connection ω} {framing : ω → H11.Framing}
    {closing : ω → Bool} {closes : Bytes → Bool → Response → Bool}
    (hW : W.Documented framing closing closes) {H : Type u} :
    (∀ canned : Canned, canned.FromRouter H → ∀ keepAlive flag backend,
      Bodiless canned.answer.response.statusCode (Backend.wire W canned keepAlive flag backend) ↔
        backend = .httptools) ∧
    ∀ (method : Bytes) (keepAlive flag : Bool) (a : Answer), a.finishes = true →
      (method = headMethod ∨ a.response.statusCode = 204 ∨ a.response.statusCode = 304) →
      (∀ faults c', Httptools.Ctx.methods.answer a
          (Httptools.Ctx.start method keepAlive flag faults) = .done c' →
        (Bodiless a.response.statusCode c'.out.wire ↔ Httptools.Ctx.fileBytes a = [])) ∧
      ((∀ r n moved fails, a = .sendfile r n moved fails →
          declaredLength r.headers none = some (some (n : Int))) →
        ∃ c', Httptools.Ctx.methods.answer a
          (Httptools.Ctx.start method keepAlive flag []) = .done c') := by
  constructor
  -- the canned answers, then what a handler gives
  · intro canned hcanned keepAlive flag backend
    cases backend with
    | h11 =>
      rw [bodiless_h11 hW hcanned]
      exact ⟨fun h => absurd h (not_bodiless_nil _), fun h => by cases h⟩
    | httptools => exact ⟨fun _ => rfl, fun _ => bodiless_httptools W hcanned keepAlive flag⟩
  · intro method keepAlive flag a hfinish hquiet
    exact ⟨fun faults c' h => Httptools.Ctx.bodiless_answer_iff rfl rfl (not_allowed hquiet) h
      hfinish, fun hdeclared => Httptools.Ctx.answer_of_no_faults rfl hfinish hdeclared⟩

/-- The head of a file of five bytes. -/
def fileHead : Response := ⟨200, [(Bytes.contentLengthName, [53])], []⟩

/-- The 500 for a handler that raised, and a file of which no byte is moved. -/
theorem bodiless_iff_internalError :
    Bodiless 500 (Backend.wire H11.Plain.connection .handlerError true true .httptools) ∧
      ¬Bodiless 500 (Backend.wire H11.Plain.connection .handlerError true true .h11) ∧
      ∃ c', Httptools.Ctx.methods.answer (.sendfile fileHead 5 [] false)
          (Httptools.Ctx.start headMethod true false []) = .done c' ∧
        Bodiless 200 c'.out.wire := by
  obtain ⟨hcanned, hsent⟩ := bodiless_iff H11.Plain.documented (H := Unit)
  have herror := hcanned .handlerError trivial true true
  obtain ⟨hiff, htotal⟩ :=
    hsent headMethod true false (.sendfile fileHead 5 [] false) rfl (.inl rfl)
  obtain ⟨c', hanswer⟩ := htotal (by rintro r n moved fails ⟨⟩; decide)
  exact ⟨(herror .httptools).2 rfl, fun h => Backend.noConfusion ((herror .h11).1 h), c', hanswer,
    (hiff [] c' hanswer).2 rfl⟩

/-- HEAD for a path without a route: h11 writes nothing, and the connection is closed. HEAD for a
file: httptools sends its bytes. -/
theorem head_without_answer :
    (∃ router, Routing.Router.fromRoutes Routing.asciiOnly
      ⟨([] : List (_ × Routing.MethodMap Unit))⟩ =
        some router ∧ router.dispatch "/missing".toList "HEAD".toList =
          some (.answered Routing.notFoundResponse Routing.notFoundBody)) ∧
      Backend.wire H11.Plain.connection (.router Routing.notFoundResponse Routing.notFoundBody) true
        true .h11 = [] ∧
      ¬Bodiless 404 (Backend.wire H11.Plain.connection
        (.router Routing.notFoundResponse Routing.notFoundBody) true true .h11) ∧
      ∃ c', Httptools.Ctx.methods.answer (.sendfile fileHead 5 [104, 101, 108, 108, 111] false)
          (Httptools.Ctx.start headMethod true false []) = .done c' ∧
        c'.out.wire = [.head fileHead, .bytes [], .bytes [104, 101, 108, 108, 111]] ∧
        ¬Bodiless 200 c'.out.wire := by
  have hnothing : Backend.wire H11.Plain.connection
      (.router Routing.notFoundResponse Routing.notFoundBody) true true .h11 = [] := by decide
  refine ⟨⟨_, rfl, rfl⟩, hnothing, ?_, _, rfl, by decide, ?_⟩
  · rw [hnothing]
    exact not_bodiless_nil 404
  · rintro ⟨r, -, hbodiless⟩
    have hbytes : HeadAnd fileHead [104, 101, 108, 108, 111] _ :=
      Httptools.Ctx.headAnd_answer (a := .sendfile fileHead 5 [104, 101, 108, 108, 111] false)
        (c := Httptools.Ctx.start headMethod true false []) rfl rfl rfl
    cases Httptools.Ctx.HeadAnd_unique hbytes hbodiless

end LocalPost.Http.Writer
