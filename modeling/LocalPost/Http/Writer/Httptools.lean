import LocalPost.Core.ChunkedCoding
import LocalPost.Http.Writer.Native

/-!
# Writing a response on httptools

The context builds the wire bytes itself: the head waits for the first chunk of the body, and a
response without framing headers is chunked. Nothing counts the bytes of the body.
-/

set_option autoImplicit false

namespace LocalPost.Http.Writer.Httptools

open LocalPost.Core

/-- The fields of `_HTTPReqCtx` and of its connection that the response path reads and writes. -/
structure Ctx where
  method : Bytes
  keepAlive : Bool
  responseStatus : Option Nat
  chunked : Bool
  bodyAllowed : Bool
  closeAfterResponse : Bool
  isOpen : Bool
  out : Out
  deriving DecidableEq, Repr

namespace Ctx

/-- A new request on an open connection. -/
def start (method : Bytes) (keepAlive closeAfterResponse : Bool) (faults : List (Option Nat)) :
    Ctx where
  method := method
  keepAlive := keepAlive
  responseStatus := none
  chunked := false
  bodyAllowed := true
  closeAfterResponse := closeAfterResponse
  isOpen := true
  out := ⟨[], none, faults⟩

/-- `start_response`. -/
def startResponse (response : Response) (c : Ctx) : Ctx :=
  let scan := scanResponseHeaders response.headers
  let bodyAllowed := responseAllowsBody c.method response.statusCode
  { c with
    responseStatus := some response.statusCode
    bodyAllowed := bodyAllowed
    closeAfterResponse := c.closeAfterResponse || (scan.hasClose || !c.keepAlive)
    chunked := c.chunked || (bodyAllowed && (!scan.hasFraming || scan.hasChunked))
    out := { c.out with
      pending := some <|
        if bodyAllowed && !scan.hasFraming then
          { response with headers := response.headers ++ [(transferEncodingName, chunkedValue)] }
        else response } }

/-- The pending head goes out with the bytes behind it. -/
def flush (b : Bytes) (c : Ctx) : Outcome Ctx := (c.out.flush b).map fun out =>
    { c with out := out }

/-- The bytes of a chunk on the wire. -/
def framed (c : Ctx) (chunk : Bytes) : Bytes :=
  if c.chunked ∧ chunk ≠ [] then ChunkedCoding.frame chunk else chunk

/-- `send`. -/
def send (chunk : Bytes) (c : Ctx) : Outcome Ctx :=
  if !c.bodyAllowed then c.flush []
  else if chunk = [] ∧ c.out.pending = none then .done c
  else c.flush (c.framed chunk)

/-- `finish_response`; the connection goes back to the selector, if it was borrowed. -/
def finishResponse (c : Ctx) : Outcome Ctx :=
  c.flush (if c.chunked then ChunkedCoding.lastChunk else [])

/-- `BaseHTTPConn.close`. -/
def close (c : Ctx) : Ctx := { c with isOpen := false }

/-- `socket.sendfile`: what the kernel moves goes out behind everything else. -/
def socketSendfile (moved : Bytes) (fails : Bool) (c : Ctx) : Outcome Ctx :=
  let c := { c with out := { c.out with wire := c.out.wire ++ [.bytes moved] } }
  if fails then .raised .sendFailed c else .done c

/-- `sendfile`. -/
def sendfile (response : Response) (count : Nat) (moved : Bytes) (fails : Bool) (c : Ctx) :
    Outcome Ctx :=
  if declaredLength response.headers none = some (some (count : Int)) then
    (((c.startResponse response).flush []).andThen (socketSendfile moved fails)).andThen
      finishResponse
  else .raised .valueError c

/-- The context of this backend. -/
def methods : NativeReqCtx Ctx where
  startResponse := fun response c => .done (c.startResponse response)
  send := send
  finishResponse := finishResponse
  sendfile := sendfile
  close := close
  responseStatus := Ctx.responseStatus

/-! ## What the methods write -/

/-- The bytes `b` have gone out behind the pending head, and nothing else has changed. -/
structure Pushes (b : Bytes) (c c' : Ctx) : Prop where
  out : c.out.Pushes b c'.out
  frame : c' = { c with out := c'.out }

namespace Pushes

variable {b b' : Bytes} {c c' c'' : Ctx}

theorem refl (c : Ctx) : Pushes [] c c := ⟨Out.Pushes.refl c.out, rfl⟩

theorem trans (h : Pushes b c c') (h' : Pushes b' c' c'') : Pushes (b ++ b') c c'' where
  out := h.out.trans h'.out
  frame := h'.frame.trans (congrArg (fun k => { k with out := c''.out }) h.frame)

theorem responseStatus (h : Pushes b c c') : c'.responseStatus = c.responseStatus := by
  rw [h.frame]

theorem chunked (h : Pushes b c c') : c'.chunked = c.chunked := by
  rw [h.frame]

theorem bodyAllowed (h : Pushes b c c') : c'.bodyAllowed = c.bodyAllowed := by
  rw [h.frame]

theorem closeAfterResponse (h : Pushes b c c') : c'.closeAfterResponse = c.closeAfterResponse := by
  rw [h.frame]

end Pushes

/-- A write that returns has put its bytes on the wire. -/
theorem flush_done {b : Bytes} {c c' : Ctx} (h : c.flush b = .done c') : Pushes b c c' := by
  rw [flush] at h
  cases hflush : c.out.flush b with
  | done out =>
    rw [hflush] at h
    cases h
    exact ⟨Out.flush_done hflush, rfl⟩
  | raised e out =>
    rw [hflush] at h
    cases h

theorem flush_status (b : Bytes) (c : Ctx) :
    (c.flush b).state.responseStatus = c.responseStatus := by
  rw [flush]
  cases c.out.flush b <;> rfl

/-- What a chunk of the body becomes. -/
def pushed (bodyAllowed chunked : Bool) (chunk : Bytes) : Bytes :=
  if bodyAllowed then if chunked ∧ chunk ≠ [] then ChunkedCoding.frame chunk else chunk else []

/-- A chunk that is sent is on the wire as it is pushed. -/
theorem send_done {chunk : Bytes} {c c' : Ctx} (h : c.send chunk = .done c') :
    Pushes (pushed c.bodyAllowed c.chunked chunk) c c' := by
  rw [send] at h
  rw [pushed]
  cases hallowed : c.bodyAllowed with
  | false =>
    rw [hallowed] at h
    exact flush_done h
  | true =>
    rw [hallowed, Bool.not_true, if_neg Bool.false_ne_true] at h
    rw [if_pos rfl]
    by_cases hempty : chunk = [] ∧ c.out.pending = none
    · rw [if_pos hempty] at h
      cases h
      rw [if_neg fun hframed => hframed.2 hempty.1, hempty.1]
      exact Pushes.refl c
    · rw [if_neg hempty] at h
      rw [← framed]
      exact flush_done h

/-- The chunks that are sent are on the wire as they are pushed. -/
theorem sendChunks_done {chunks : List Bytes} {c c' : Ctx}
    (h : methods.sendChunks chunks c = .done c') :
    Pushes (chunks.flatMap (pushed c.bodyAllowed c.chunked)) c c' := by
  induction chunks generalizing c with
  | nil =>
    cases h
    exact Pushes.refl _
  | cons chunk chunks ih =>
    obtain ⟨c₁, hsend, hrest⟩ := Outcome.andThen_done h
    have hpush := send_done hsend
    have hpush' := ih hrest
    rw [hpush.bodyAllowed, hpush.chunked] at hpush'
    rw [List.flatMap_cons]
    exact hpush.trans hpush'

theorem finishResponse_done {c c' : Ctx} (h : c.finishResponse = .done c') :
    Pushes (if c.chunked then ChunkedCoding.lastChunk else []) c c' := flush_done h

theorem socketSendfile_done {moved : Bytes} {fails : Bool} {c c' : Ctx}
    (h : c.socketSendfile moved fails = .done c') : Pushes moved c c' := by
  cases fails with
  | false =>
    cases h
    exact ⟨Out.pushes_bytes moved c.out, rfl⟩
  | true => cases h

theorem send_status (chunk : Bytes) (c : Ctx) :
    (c.send chunk).state.responseStatus = c.responseStatus := by
  rw [send]
  split
  · exact flush_status _ c
  · split
    · rfl
    · exact flush_status _ c

/-- The methods of the httptools contexts are lawful: the status comes with the head and stays. -/
theorem lawful_methods : methods.Lawful Ctx.isOpen where
  startResponse := fun _ _ => rfl
  send := send_status
  finishResponse := fun c => flush_status _ c
  sendfile := fun r n moved fails c => by
    change c.sendfile r n moved fails = _ ∨ (c.sendfile r n moved fails).state.responseStatus = _
    rw [sendfile]
    split
    -- the flush, the transfer and the last flush keep the status
    · refine .inr (methods.status_andThen
        (methods.status_andThen (flush_status [] (c.startResponse r)) fun c' hc' => ?_)
          fun c' hc' => ?_)
      · rw [socketSendfile]
        cases fails with
        | false => exact hc'
        | true => exact hc'
      · exact (flush_status _ c').trans hc'
    · exact .inl rfl
  sendfile_fails := fun r n moved c c' h => by
    change c.sendfile r n moved true = .done c' at h
    rw [sendfile] at h
    split at h
    · obtain ⟨c₁, hmove, -⟩ := Outcome.andThen_done h
      obtain ⟨c₂, -, hmove⟩ := Outcome.andThen_done hmove
      cases hmove
    · cases h
  close := fun _ => rfl

/-- The bytes behind the head of an answer that comes to its end. -/
def answerBytes (bodyAllowed chunked : Bool) : Answer → Bytes
  | .complete _ body =>
    (body.map (pushed bodyAllowed chunked)).getD [] ++ if chunked then
      ChunkedCoding.lastChunk else []
  | .stream _ chunks _ =>
    chunks.flatMap (pushed bodyAllowed chunked) ++ if chunked then ChunkedCoding.lastChunk else []
  | .sendfile _ _ moved _ => moved ++ if chunked then ChunkedCoding.lastChunk else []

/-- The context once the response of an answer is started. -/
def started (a : Answer) (c : Ctx) : Ctx := c.startResponse a.response

/-- An answer that comes to its end has written its bytes behind its head. -/
theorem answer_done {a : Answer} {c c' : Ctx} (h : methods.answer a c = .done c')
    (hfinish : a.finishes = true) :
    Pushes (answerBytes (c.started a).bodyAllowed (c.started a).chunked a) (c.started a) c' := by
  cases a with
  | complete response body =>
    -- what the body pushes, then what `finish_response` does
    obtain ⟨c₁, hbody, hend⟩ := Outcome.andThen_done h
    have hpush : Pushes ((body.map (pushed (c.startResponse response).bodyAllowed
        (c.startResponse response).chunked)).getD []) (c.startResponse response) c₁ := by
      cases body with
      | none =>
        cases hbody
        exact Pushes.refl _
      | some body => exact send_done hbody
    have hpush' := finishResponse_done hend
    rw [hpush.chunked] at hpush'
    exact hpush.trans hpush'
  | stream response chunks ending =>
    obtain ⟨c₁, hchunks, hend⟩ := Outcome.andThen_done h
    have hpush : Pushes _ (c.startResponse response) c₁ := sendChunks_done hchunks
    have hending : ending = .finished := of_decide_eq_true hfinish
    rw [hending] at hend
    have hpush' := finishResponse_done hend
    rw [hpush.chunked] at hpush'
    exact hpush.trans hpush'
  | sendfile response count moved fails =>
    have hsendfile : c.sendfile response count moved fails = .done c' := h
    rw [sendfile] at hsendfile
    split at hsendfile
    · obtain ⟨c₂, hmove, hend⟩ := Outcome.andThen_done hsendfile
      obtain ⟨c₁, hflush, hmove⟩ := Outcome.andThen_done hmove
      -- the head, the bytes of the file, then the end
      have hpush := (flush_done hflush).trans (socketSendfile_done hmove)
      have hpush' := finishResponse_done hend
      rw [hpush.chunked] at hpush'
      exact hpush.trans hpush'
    · cases hsendfile

/-- The declared length is what `sendfile` compares. -/
theorem declaredLength_of_declares {r : Response} {n : Nat} (h : r.Declares n) :
    declaredLength r.headers none = some (some (n : Int)) := by
  -- the value found so far, or a Content-Length still to come
  have hall : ∀ (headers : List (Bytes × Bytes)) (declared : Option Int),
      (∀ header ∈ headers, header.1.lower = Bytes.contentLengthName →
        Bytes.int header.2 = some (n : Int)) →
      (∀ header ∈ headers, header.1.lower ≠ transferEncodingName) →
      (declared = some (n : Int) ∨ ∃ header ∈ headers, header.1.lower = Bytes.contentLengthName) →
      declaredLength headers declared = some (some (n : Int)) := by
    intro headers
    induction headers with
    | nil =>
      rintro declared - - (rfl | ⟨header, hmem, -⟩)
      · rfl
      · cases hmem
    | cons header headers ih =>
      intro declared hlength hcoding hsome
      have hlength' := fun h' hmem => hlength h' (List.mem_cons_of_mem _ hmem)
      have hcoding' := fun h' hmem => hcoding h' (List.mem_cons_of_mem _ hmem)
      rw [declaredLength, if_neg (hcoding header List.mem_cons_self)]
      -- every Content-Length has the same value, so the last one says it, too
      by_cases hname : header.1.lower = Bytes.contentLengthName
      · rw [if_pos hname, hlength header List.mem_cons_self hname, Option.bind_some]
        exact ih _ hlength' hcoding' (.inl rfl)
      · rw [if_neg hname]
        refine ih _ hlength' hcoding' (hsome.imp id ?_)
        rintro ⟨header', hmem, hname'⟩
        rcases List.mem_cons.1 hmem with rfl | hmem
        · exact absurd hname' hname
        · exact ⟨header', hmem, hname'⟩
  exact hall r.headers none h.2.1 h.2.2 (.inr h.1)

/-- An answer that adds up hands over what its response declares. -/
theorem handed_of_addsUp {a : Answer} {n : Nat} {c c' : Ctx} (h : methods.answer a c = .done c')
    (hfinish : a.finishes = true) (hdeclares : a.response.Declares n) (hadds : a.AddsUp n) :
    a.handed.length = n := by
  cases a with
  | complete response body => exact hadds
  | stream response chunks ending => exact hadds (of_decide_eq_true hfinish)
  | sendfile response count moved fails =>
    have hsendfile : c.sendfile response count moved fails = .done c' := h
    have hlength : declaredLength response.headers none = some (some (n : Int)) :=
      declaredLength_of_declares hdeclares
    rw [sendfile, hlength] at hsendfile
    split at hsendfile
    · rename_i heq
      have hcount : count = n := by simpa using heq.symm
      refine hadds hcount ?_
      rw [Answer.finishes] at hfinish
      simpa using hfinish
    · cases hsendfile

/-- A response with a declared length starts without chunks. -/
theorem started_of_declares {a : Answer} {n : Nat} {c : Ctx} (h : a.response.Declares n)
    (hbody : mayCarryBody c.method a.response.statusCode = true) :
    (c.started a).chunked = c.chunked ∧ (c.started a).bodyAllowed = true := by
  obtain ⟨hframing, hchunked⟩ := h.scan
  have hallowed : responseAllowsBody c.method a.response.statusCode = true :=
    (Bool.and_eq_true_iff.1 hbody).1
  constructor
  · rw [started, startResponse]
    simp only [hframing, hchunked, Bool.not_true, Bool.or_false, Bool.and_false]
  · exact hallowed

/-- The head that goes out is the response, or declares no length. -/
theorem pending_started {a : Answer} {c : Ctx} {r : Response} {n : Nat}
    (h : (c.started a).out.pending = some r) (hdeclares : r.Declares n) : r = a.response := by
  rw [started, startResponse] at h
  have heq := Option.some.inj h
  split at heq
  · rw [← heq] at hdeclares
    exact absurd hdeclares (not_declares_append a.response n)
  · exact heq.symm

/-- Without the chunked coding, an answer is what was handed over. -/
theorem answerBytes_raw (a : Answer) : answerBytes true false a = a.handed := by
  have hpushed : pushed true false = id := by
    funext chunk
    rw [pushed, if_pos rfl, if_neg fun h => Bool.false_ne_true h.1, id]
  cases a with
  | complete response body =>
    rw [answerBytes, hpushed, Option.map_id, Answer.handed, if_neg Bool.false_ne_true,
      List.append_nil, id]
  | stream response chunks ending =>
    rw [answerBytes, hpushed, Answer.handed, if_neg Bool.false_ne_true, List.append_nil,
      List.flatMap_id]
  | sendfile response count moved fails =>
    rw [answerBytes, Answer.handed, if_neg Bool.false_ne_true, List.append_nil]

/-- An answer that has gone out is exact when the bytes handed over add up. -/
theorem exact_of_addsUp {a : Answer} {c c' : Ctx} (hwire : c.out.wire = [])
    (hchunked : c.chunked = false) (h : methods.answer a c = .done c') (hfinish : a.finishes = true)
    (hadds : ∀ n, a.response.Declares n → mayCarryBody c.method a.response.statusCode = true →
      a.AddsUp n) :
    Exact c.method c'.out.wire := by
  intro r hr n hdeclares hbody
  have hpush := answer_done h hfinish
  have hstart : (c.started a).out.wire = [] := hwire
  rcases hpush.out.heads r hr with hmem | hpending
  · rw [hstart] at hmem
    cases hmem
  · have heq := pending_started hpending hdeclares
    subst heq
    obtain ⟨hraw, hallowed⟩ := started_of_declares hdeclares hbody
    rw [hpush.out.body, hstart, hraw, hallowed, hchunked, answerBytes_raw]
    exact handed_of_addsUp h hfinish hdeclares (hadds n hdeclares hbody)

/-! ## A socket without faults -/

theorem flush_done_out {c c' : Ctx} {b : Bytes} (h : c.flush b = .done c') :
    c.out.flush b = .done c'.out := by
  rw [flush] at h
  cases hflush : c.out.flush b with
  | done out =>
    rw [hflush] at h
    cases h
    rfl
  | raised e out =>
    rw [hflush] at h
    cases h

section

variable {c : Ctx} (h : c.out.faults = [])
include h

theorem flush_of_no_faults (b : Bytes) : ∃ c', c.flush b = .done c' ∧ c'.out.faults = [] := by
  obtain ⟨out, hflush, hfaults⟩ := Out.flush_of_no_faults h b
  exact ⟨{ c with out := out }, by rw [flush, hflush, Outcome.map], hfaults⟩

/-- Without faults every chunk goes out. -/
theorem send_of_no_faults (chunk : Bytes) : ∃ c', c.send chunk = .done c' ∧ c'.out.faults = [] := by
  rw [send]
  split
  · exact flush_of_no_faults h []
  · split
    · exact ⟨c, rfl, h⟩
    · exact flush_of_no_faults h _

end

/-- Without faults all chunks are sent, and no fault comes up. -/
theorem sendChunks_of_no_faults {c : Ctx} (h : c.out.faults = []) (chunks : List Bytes) :
    ∃ c', methods.sendChunks chunks c = .done c' ∧ c'.out.faults = [] := by
  induction chunks generalizing c with
  | nil => exact ⟨c, rfl, h⟩
  | cons chunk chunks ih =>
    obtain ⟨c₁, hsend, hfaults⟩ := send_of_no_faults h chunk
    obtain ⟨c₂, hrest, hfaults₂⟩ := ih hfaults
    refine ⟨c₂, ?_, hfaults₂⟩
    change (c.send chunk).andThen _ = _
    rw [hsend]
    exact hrest

/-- Without faults an answer that comes to its end is sent; `sendfile` wants the length declared. -/
theorem answer_of_no_faults {a : Answer} {c : Ctx} (h : c.out.faults = [])
    (hfinish : a.finishes = true) (hdeclared : ∀ r n moved fails, a = .sendfile r n moved fails →
      declaredLength r.headers none = some (some (n : Int))) :
        ∃ c', methods.answer a c = .done c' := by
  -- Without faults every flush succeeds, the last one too.
  have hfinishResponse : ∀ c₁ : Ctx, c₁.out.faults = [] → ∃ c', c₁.finishResponse = .done c' := by
    intro c₁ h₁
    obtain ⟨c', hflush, -⟩ :=
      flush_of_no_faults h₁ (if c₁.chunked then ChunkedCoding.lastChunk else [])
    exact ⟨c', hflush⟩
  cases a with
  | complete response body =>
    obtain ⟨c₁, hsend, hfaults⟩ := @sendChunks_of_no_faults (c.startResponse response) h body.toList
    obtain ⟨c', hend⟩ := hfinishResponse c₁ hfaults
    refine ⟨c', ?_⟩
    cases body with
    | none =>
      cases hsend
      exact hend
    | some body =>
      obtain ⟨c₂, hone, hnil⟩ := Outcome.andThen_done hsend
      cases hnil
      have hone' : (c.startResponse response).send body = .done c₁ := hone
      change ((c.startResponse response).send body).andThen _ = _
      rw [hone']
      exact hend
  | stream response chunks ending =>
    obtain ⟨c₁, hsend, hfaults⟩ := @sendChunks_of_no_faults (c.startResponse response) h chunks
    obtain ⟨c', hend⟩ := hfinishResponse c₁ hfaults
    have hending : ending = .finished := of_decide_eq_true hfinish
    refine ⟨c', ?_⟩
    change (methods.sendChunks chunks (c.startResponse response)).andThen _ = _
    rw [hsend, hending]
    exact hend
  | sendfile response count moved fails =>
    cases fails with
    | true => cases hfinish
    | false =>
      obtain ⟨c₁, hflush, hfaults⟩ := @flush_of_no_faults (c.startResponse response) h []
      obtain ⟨c', hend⟩ := hfinishResponse
        { c₁ with out := { c₁.out with wire := c₁.out.wire ++ [.bytes moved] } } hfaults
      refine ⟨c', ?_⟩
      change c.sendfile response count moved false = _
      rw [sendfile, if_pos (hdeclared _ _ _ _ rfl), hflush]
      exact hend

end Ctx

end LocalPost.Http.Writer.Httptools
