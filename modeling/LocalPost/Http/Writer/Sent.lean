import LocalPost.Http.Writer.Received

/-!
# One answer on a socket that does not fail

What a client makes of the one answer that a native backend sends it. On httptools an answer with a
declared length comes out as it is; on h11 what comes out is what the library lets through.
-/

set_option autoImplicit false

namespace LocalPost.Http.Writer

open LocalPost.Core

/-- The response that the httptools backend sends for an answer, on a socket that does not fail. -/
def sentHttptools (a : Answer) (method : Bytes) (keepAlive : Bool) : Option (Nat × Bytes) :=
  match Httptools.Ctx.methods.answer a (Httptools.Ctx.start method keepAlive false []) with
  | .done c => received method c.out.wire
  | .raised _ _ => none

/-- The response that the h11 backend sends for an answer; the method is the one that came. -/
def sentH11 {ω : Type} (W : H11.Connection ω) (a : Answer) (method : Bytes)
    (keepAlive drained : Bool) : Option (Nat × Bytes) :=
  match (H11.Ctx.methods W).answer a (H11.Ctx.start W method keepAlive drained []) with
  | .done c => received method c.out.wire
  | .raised _ _ => none

/-- A response with a declared length goes out as it is. -/
theorem start_of_declares {r : Response} {n : Nat} (method : Bytes) (keepAlive : Bool)
    (h : r.Declares n) :
    ((Httptools.Ctx.start method keepAlive false []).startResponse r).chunked = false ∧
      ((Httptools.Ctx.start method keepAlive false []).startResponse r).out = ⟨[], some r, []⟩ := by
  obtain ⟨hframing, hchunked⟩ := h.scan
  rw [Httptools.Ctx.startResponse]
  constructor
  · simp only [hframing, hchunked, Bool.not_true, Bool.or_false, Bool.and_false]
    rfl
  · simp only [hframing, Bool.not_true, Bool.and_false]
    rfl

theorem received_head {r : Response} {n : Nat} (h : r.Declares n) (method : Bytes)
    (items : List Item) :
    received method (.head r :: items) = some (r.statusCode, bodyBytes items) := by
  rw [received, h.scan.2, Bool.and_false, if_neg Bool.false_ne_true]
  rfl

/-- Without a body the status is received. -/
theorem sentHttptools_complete {r : Response} {n : Nat} (h : r.Declares n) (method : Bytes)
    (keepAlive : Bool) :
    sentHttptools (.complete r none) method keepAlive = some (r.statusCode, []) := by
  obtain ⟨hchunked, hout⟩ := start_of_declares method keepAlive h
  have hfinish : Httptools.Ctx.finishResponse
      ((Httptools.Ctx.start method keepAlive false []).startResponse r) =
        .done { (Httptools.Ctx.start method keepAlive false []).startResponse r with
          out := ⟨[.head r, .bytes []], none, []⟩ } := by
    rw [Httptools.Ctx.finishResponse, hchunked, Httptools.Ctx.flush, hout]
    rfl
  have hanswer : Httptools.Ctx.methods.answer (.complete r none)
    (Httptools.Ctx.start method keepAlive false []) =
      Httptools.Ctx.finishResponse
        ((Httptools.Ctx.start method keepAlive false []).startResponse r) := rfl
  rw [sentHttptools, hanswer, hfinish]
  exact received_head h method _

/-- Behind an unchunked body that has gone out nothing is left to send. -/
theorem finishResponse_idle {c : Httptools.Ctx} (hchunked : c.chunked = false)
    (hpending : c.out.pending = none) : Httptools.Ctx.finishResponse c = .done c := by
  rw [Httptools.Ctx.finishResponse, hchunked, Httptools.Ctx.flush, Out.flush, hpending]
  rfl

/-- A body behind a head that declares a length goes out as it is, where a body is allowed. -/
theorem sentHttptools_body {r : Response} {n : Nat} (h : r.Declares n) (body method : Bytes)
    (keepAlive : Bool) : sentHttptools (.complete r (some body)) method keepAlive =
      some (r.statusCode, if responseAllowsBody method r.statusCode then body else []) := by
  obtain ⟨hchunked, hout⟩ := start_of_declares method keepAlive h
  -- a response with its length declared is not chunked, so the bytes go out as they are
  have hsend : Httptools.Ctx.send body
    ((Httptools.Ctx.start method keepAlive false []).startResponse r) =
      .done { (Httptools.Ctx.start method keepAlive false []).startResponse r with
        out := ⟨[.head r, .bytes (if responseAllowsBody method r.statusCode then body else [])],
            none, []⟩ } := by
    have hframed : ((Httptools.Ctx.start method keepAlive false []).startResponse r).framed body =
        body := by
      rw [Httptools.Ctx.framed, hchunked, if_neg fun hboth => Bool.false_ne_true hboth.1]
    have hbodyAllowed :
        ((Httptools.Ctx.start method keepAlive false []).startResponse r).bodyAllowed =
          responseAllowsBody method r.statusCode := rfl
    rw [Httptools.Ctx.send, hbodyAllowed, hframed]
    cases hallowed : responseAllowsBody method r.statusCode with
    | true =>
      rw [if_neg (by simp), if_neg (by rw [hout]; exact fun hboth => by cases hboth.2),
        Httptools.Ctx.flush, hout]
      rfl
    | false =>
      rw [if_pos (by simp), Httptools.Ctx.flush, hout]
      rfl
  have hanswer : Httptools.Ctx.methods.answer (.complete r (some body))
        (Httptools.Ctx.start method keepAlive false []) =
      (Httptools.Ctx.send body
        ((Httptools.Ctx.start method keepAlive false []).startResponse r)).andThen
        Httptools.Ctx.finishResponse := rfl
  rw [sentHttptools, hanswer, hsend]
  change (match Httptools.Ctx.finishResponse _ with
    | .done c => received method c.out.wire
    | .raised _ _ => none) = _
  -- `finish_response` has nothing left to write
  rw [finishResponse_idle (by exact hchunked) rfl]
  change received method (.head r :: [.bytes _]) = _
  rw [received_head h]
  exact congrArg (fun b => some (r.statusCode, b)) (List.append_nil _)

/-- A file is received as the bytes that were moved. -/
theorem sentHttptools_sendfile {r : Response} {n : Nat} (h : r.Declares n) (moved method : Bytes)
    (keepAlive : Bool) :
    sentHttptools (.sendfile r n moved false) method keepAlive = some (r.statusCode, moved) := by
  obtain ⟨hchunked, hout⟩ := start_of_declares method keepAlive h
  have hflush : Httptools.Ctx.flush []
    ((Httptools.Ctx.start method keepAlive false []).startResponse r) =
      .done { (Httptools.Ctx.start method keepAlive false []).startResponse r with
        out := ⟨[.head r, .bytes []], none, []⟩ } := by
    rw [Httptools.Ctx.flush, hout]
    rfl
  have hanswer : Httptools.Ctx.methods.answer (.sendfile r n moved false)
      (Httptools.Ctx.start method keepAlive false []) =
        .done { (Httptools.Ctx.start method keepAlive false []).startResponse r with
          out := ⟨[.head r, .bytes [], .bytes moved], none, []⟩ } := by
    change Httptools.Ctx.sendfile r n moved false
      (Httptools.Ctx.start method keepAlive false []) = _
    rw [Httptools.Ctx.sendfile, if_pos (Httptools.Ctx.declaredLength_of_declares h), hflush]
    exact finishResponse_idle hchunked rfl
  rw [sentHttptools, hanswer]
  change received method (.head r :: [.bytes [], .bytes moved]) = _
  rw [received_head h]
  exact congrArg (fun body => some (r.statusCode, body)) (List.append_nil moved)

/-- What an answer brings the client on the h11 backend, if the library takes it. -/
theorem sentH11_eq {ω : Type} {W : H11.Connection ω} {framing : ω → H11.Framing}
    {closing : ω → Bool}
    {closes : Bytes → Bool → Response → Bool} (hW : W.Documented framing closing closes)
    {a : Answer}
    {method : Bytes} {keepAlive drained : Bool} {result : Nat × Bytes}
    (hhead : method.upper ≠ headMethod)
    (hconnect : method.upper ≠ connectMethod) (hfinish : a.finishes = true) (hdeclared : a.Declared)
    (h : sentH11 W a method keepAlive drained = some result) :
    result =
      (a.response.statusCode, a.body (responseAllowsBody method.upper a.response.statusCode)) := by
  rw [sentH11] at h
  split at h
  · rename_i c hdone
    obtain ⟨hstatus, hbody⟩ := H11.received_answer hW hhead hconnect hdone hfinish hdeclared h
    exact Prod.ext hstatus hbody
  · cases h

/-- What an answer brings the client on the httptools backend, if it is sent. -/
theorem sentHttptools_eq {a : Answer} {method : Bytes} {keepAlive : Bool} {result : Nat × Bytes}
    (hconnect : method ≠ connectMethod) (hfinish : a.finishes = true) (hdeclared : a.Declared)
    (h : sentHttptools a method keepAlive = some result) :
    result = (a.response.statusCode, a.body (responseAllowsBody method a.response.statusCode)) := by
  rw [sentHttptools] at h
  split at h
  · rename_i c hdone
    have hc : c.method = method := by
      rw [(Httptools.Ctx.answer_done hdone hfinish).frame]
      rfl
    rw [← hc] at h
    obtain ⟨hstatus, hbody⟩ :=
      Httptools.received_answer rfl rfl hconnect hdone hfinish hdeclared (hc ▸ h)
    exact Prod.ext hstatus hbody
  · cases h

/-- An answer that brings the client something has come to its end. -/
theorem finishes_of_sentHttptools {a : Answer} {method : Bytes} {keepAlive : Bool}
    {result : Nat × Bytes} (hcancelled : ∀ r chunks, a ≠ .stream r chunks .cancelled)
    (h : sentHttptools a method keepAlive = some result) : a.finishes = true := by
  rw [sentHttptools] at h
  split at h
  · rename_i c hdone
    exact Httptools.Ctx.lawful_methods.finishes_of_done hdone hcancelled
  · cases h

theorem finishes_of_sentH11 {ω : Type} {W : H11.Connection ω} {a : Answer} {method : Bytes}
    {keepAlive drained : Bool} {result : Nat × Bytes}
    (hcancelled : ∀ r chunks, a ≠ .stream r chunks .cancelled)
    (h : sentH11 W a method keepAlive drained = some result) : a.finishes = true := by
  rw [sentH11] at h
  split at h
  · rename_i c hdone
    exact (H11.Ctx.lawful_methods W).finishes_of_done hdone hcancelled
  · cases h

end LocalPost.Http.Writer
