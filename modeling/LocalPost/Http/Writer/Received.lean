import LocalPost.Http.Writer.H11
import LocalPost.Http.Writer.Httptools

/-!
# What a client receives

The status and the body that a client reads off the wire, with the chunked coding taken off. On both
backends it is the body that was handed over, unless the status allows none.
-/

set_option autoImplicit false

namespace LocalPost.Http.Writer

open LocalPost.Core

/-- The status and the body of the response on the wire. -/
def received (method : Bytes) : List Item → Option (Nat × Bytes)
  | .head r :: items =>
    (if mayCarryBody method r.statusCode && (scanResponseHeaders r.headers).hasChunked then
      ChunkedCoding.decode (bodyBytes items)
    else some (bodyBytes items)).map fun body => (r.statusCode, body)
  | _ => none

/-- The body that goes out: `sendfile` does not look at the status. -/
def Answer.body (bodyAllowed : Bool) : Answer → Bytes
  | .complete _ body => if bodyAllowed then body.getD [] else []
  | .stream _ chunks _ => if bodyAllowed then chunks.flatten else []
  | .sendfile _ _ moved _ => moved

/-- What `sendfile` asks of its caller: the response declares the length of the range. -/
def Answer.Declared : Answer → Prop
  | .complete _ _ => True
  | .stream _ _ _ => True
  | .sendfile r count _ _ => r.Declares count

/-- A response that is received has its head on the wire, and the body that its framing gives. -/
theorem received_some {method : Bytes} {wire : List Item} {status : Nat} {body : Bytes}
    (h : received method wire = some (status, body)) :
    ∃ r, Item.head r ∈ wire ∧ r.statusCode = status ∧
      if mayCarryBody method r.statusCode && (scanResponseHeaders r.headers).hasChunked then
        ChunkedCoding.decode (bodyBytes wire) = some body
      else bodyBytes wire = body := by
  -- a message starts with its head
  cases wire with
  | nil => cases h
  | cons item items =>
    cases item with
    | bytes b => cases h
    | head r =>
      rw [received] at h
      obtain ⟨body', hdecode, heq⟩ := Option.map_eq_some_iff.1 h
      cases heq
      refine ⟨r, List.mem_cons_self, rfl, ?_⟩
      have hbytes : bodyBytes (.head r :: items) = bodyBytes items := rfl
      rw [hbytes]
      split
      · rename_i hchunked
        rw [if_pos hchunked] at hdecode
        exact hdecode
      · rename_i hchunked
        rw [if_neg hchunked] at hdecode
        exact Option.some.inj hdecode

/-- Only chunks that are not empty have a frame. -/
theorem flatMap_frames (chunks : List Bytes) :
    chunks.flatMap (fun chunk => if chunk = [] then [] else ChunkedCoding.frame chunk) =
      (chunks.filter (· ≠ [])).flatMap ChunkedCoding.frame := by
  induction chunks with
  | nil => rfl
  | cons chunk chunks ih =>
    rw [List.flatMap_cons, ih]
    by_cases hempty : chunk = []
    · rw [if_pos hempty, List.filter_cons_of_neg (by simp [hempty]), List.nil_append]
    · rw [if_neg hempty, List.filter_cons_of_pos (by simp [hempty]), List.flatMap_cons]

/-- Chunks are read back without those that are empty. -/
theorem decode_chunks (chunks : List Bytes) :
    ChunkedCoding.decode
      (chunks.flatMap (fun chunk => if chunk = [] then [] else ChunkedCoding.frame chunk) ++
      ChunkedCoding.lastChunk) = some chunks.flatten := by
  rw [flatMap_frames, ChunkedCoding.decode_frames fun chunk hmem => by
    simpa using (List.mem_filter.1 hmem).2, List.flatten_filter_ne_nil]

theorem mayCarryBody_of_ne_connect {method : Bytes} (h : method ≠ connectMethod)
    (statusCode : Nat) : mayCarryBody method statusCode = responseAllowsBody method statusCode := by
  rw [mayCarryBody, decide_eq_false h]
  simp

namespace Httptools

theorem pushed_chunked (chunk : Bytes) :
    Ctx.pushed true true chunk = if chunk = [] then [] else ChunkedCoding.frame chunk := by
  rw [Ctx.pushed, if_pos rfl]
  by_cases hempty : chunk = []
  · rw [if_pos hempty, if_neg fun h => h.2 hempty, hempty]
  · rw [if_neg hempty, if_pos ⟨rfl, hempty⟩]

/-- Bytes in chunks are read back. -/
theorem decode_answerBytes {a : Answer} (h : ∀ r n moved fails, a ≠ .sendfile r n moved fails) :
    ChunkedCoding.decode (Ctx.answerBytes true true a) = some a.handed := by
  have hpushed : Ctx.pushed true true = fun chunk => if chunk = [] then
    [] else ChunkedCoding.frame chunk :=
    funext pushed_chunked
  cases a with
  | complete response body =>
    have hone := decode_chunks body.toList
    cases body with
    | none => exact hone
    | some body =>
      rw [Ctx.answerBytes, hpushed, if_pos rfl]
      rw [Answer.handed, Option.getD_some]
      simpa using hone
  | stream response chunks ending =>
    rw [Ctx.answerBytes, hpushed, if_pos rfl, decode_chunks]
    rfl
  | sendfile response count moved fails => exact absurd rfl (h response count moved fails)

/-- Nothing is written where no body is allowed. -/
theorem answerBytes_notAllowed {a : Answer} (h : ∀ r n moved fails, a ≠ .sendfile r n moved fails) :
    Ctx.answerBytes false false a = [] := by
  have hpushed : Ctx.pushed false false = fun _ => [] := rfl
  cases a with
  | complete response body => cases body <;> rfl
  | stream response chunks ending =>
    rw [Ctx.answerBytes, hpushed]
    simp
  | sendfile response count moved fails => exact absurd rfl (h response count moved fails)

/-- The head that goes out says whether the body is chunked. -/
theorem pending_chunked {a : Answer} {c : Ctx} {r : Response} (hchunked : c.chunked = false)
    (h : (c.started a).out.pending = some r) :
    r.statusCode = a.response.statusCode ∧
      ((c.started a).bodyAllowed && (scanResponseHeaders r.headers).hasChunked) =
        (c.started a).chunked := by
  rw [Ctx.started, Ctx.startResponse] at h ⊢
  have heq := Option.some.inj h
  simp only [hchunked, Bool.false_or]
  cases hallowed : responseAllowsBody c.method a.response.statusCode with
  | false =>
    simp only [hallowed, Bool.false_and, Bool.false_eq_true, if_false] at heq
    rw [← heq]
    exact ⟨rfl, rfl⟩
  | true =>
    simp only [hallowed, Bool.true_and] at heq
    cases hframing : (scanResponseHeaders a.response.headers).hasFraming with
    | false =>
      simp only [hframing, Bool.not_false, if_true] at heq
      rw [← heq]
      exact ⟨rfl, by rw [hasChunked_append]; rfl⟩
    | true =>
      simp only [hframing, Bool.not_true, Bool.false_eq_true, if_false] at heq
      rw [← heq]
      exact ⟨rfl, rfl⟩

/-- What the client receives of an answer. -/
theorem received_answer {a : Answer} {c c' : Ctx} {status : Nat} {body : Bytes}
    (hwire : c.out.wire = []) (hchunked : c.chunked = false) (hmethod : c.method ≠ connectMethod)
    (h : Ctx.methods.answer a c = .done c') (hfinish : a.finishes = true) (hdeclared : a.Declared)
    (hreceived : received c.method c'.out.wire = some (status, body)) :
    status = a.response.statusCode ∧
      body = a.body (responseAllowsBody c.method a.response.statusCode) := by
  have hpush := Ctx.answer_done h hfinish
  have hstart : (c.started a).out.wire = [] := hwire
  have hallowed : (c.started a).bodyAllowed = responseAllowsBody c.method
    a.response.statusCode := rfl
  obtain ⟨r, hr, hstatus, hbody⟩ := received_some hreceived
  rcases hpush.out.heads r hr with hmem | hpending
  · rw [hstart] at hmem
    cases hmem
  · obtain ⟨hcode, hhead⟩ := pending_chunked hchunked hpending
    rw [mayCarryBody_of_ne_connect hmethod, hcode, ← hallowed, hhead,
      hpush.out.body, hstart] at hbody
    refine ⟨hstatus.symm.trans hcode, ?_⟩
    rw [← hallowed]
    -- A response without a body is not chunked either.
    have hkind : (c.started a).bodyAllowed = false → (c.started a).chunked = false := by
      intro hno
      rw [← hhead, hno, Bool.false_and]
    change (if (c.started a).chunked = true then
      ChunkedCoding.decode
        (Ctx.answerBytes (c.started a).bodyAllowed (c.started a).chunked a) = some body
      else Ctx.answerBytes (c.started a).bodyAllowed (c.started a).chunked a = body) at hbody
    by_cases hsendfile : ∀ r n moved fails, a ≠ .sendfile r n moved fails
    · cases hb : (c.started a).bodyAllowed with
      | false =>
        rw [hb, hkind hb, if_neg Bool.false_ne_true, answerBytes_notAllowed hsendfile] at hbody
        rw [← hbody]
        cases a with
        | complete response body => rfl
        | stream response chunks ending => rfl
        | sendfile response count moved fails =>
          exact absurd rfl (hsendfile response count moved fails)
      | true =>
        -- Raw bytes are the body, and the decoder gives it back from the chunks.
        have hhanded : body = a.handed := by
          cases hc : (c.started a).chunked with
          | false =>
            rw [hb, hc, if_neg Bool.false_ne_true, Ctx.answerBytes_raw] at hbody
            exact hbody.symm
          | true =>
            rw [hb, hc, if_pos rfl, decode_answerBytes hsendfile, Option.some.injEq] at hbody
            exact hbody.symm
        rw [hhanded]
        cases a with
        | complete response body => rfl
        | stream response chunks ending => rfl
        | sendfile response count moved fails =>
          exact absurd rfl (hsendfile response count moved fails)
    · -- A declared length is not chunked.
      push Not at hsendfile
      obtain ⟨response, count, moved, fails, rfl⟩ := hsendfile
      have hscan : (scanResponseHeaders response.headers).hasFraming = true ∧
          (scanResponseHeaders response.headers).hasChunked = false :=
            Response.Declares.scan hdeclared
      have hc : (c.started (.sendfile response count moved fails)).chunked = false := by
        rw [Ctx.started, Ctx.startResponse, Answer.response]
        simp only [hchunked, hscan.1, hscan.2, Bool.not_true, Bool.or_false, Bool.and_false]
      rw [hc, if_neg Bool.false_ne_true] at hbody
      rw [← hbody, Ctx.answerBytes, if_neg Bool.false_ne_true, List.append_nil]
      rfl

end Httptools

namespace H11

variable {ω : Type} {W : Connection ω} {framing : ω → Framing} {closing : ω → Bool}
  {closes : Bytes → Bool → Response → Bool}

/-- Bytes in chunks are read back. -/
theorem decode_answerBytes {a : Answer} (h : ∀ r n moved fails, a ≠ .sendfile r n moved fails) :
    ChunkedCoding.decode (Ctx.answerBytes .chunked a) = some a.handed := by
  cases a with
  | complete response body =>
    have hone := decode_chunks body.toList
    cases body with
    | none => exact hone
    | some body =>
      rw [Option.toList_some, List.flatMap_singleton, List.flatten_singleton] at hone
      exact hone
  | stream response chunks ending => exact decode_chunks chunks
  | sendfile response count moved fails => exact absurd rfl (h response count moved fails)

/-- The method as it came and in upper case allow the same bodies, unless it is HEAD or CONNECT. -/
theorem mayCarryBody_upper {method : Bytes} (hhead : method.upper ≠ headMethod)
    (hconnect : method.upper ≠ connectMethod) (statusCode : Nat) :
    mayCarryBody method statusCode = responseAllowsBody method.upper statusCode := by
  rw [mayCarryBody_of_ne_connect (Ctx.upper_ne_connect hconnect), responseAllowsBody,
    responseAllowsBody, decide_eq_true hhead, decide_eq_true (Ctx.upper_ne_head hhead)]

/-- What the client receives of an answer. -/
theorem received_answer (hW : W.Documented framing closing closes) {a : Answer} {method : Bytes}
    {keepAlive drained : Bool} {faults : List (Option Nat)} {c' : Ctx ω} {status : Nat}
    {body : Bytes} (hhead : method.upper ≠ headMethod) (hconnect : method.upper ≠ connectMethod)
    (h : (Ctx.methods W).answer a (Ctx.start W method keepAlive drained faults) = .done c')
    (hfinish : a.finishes = true) (hdeclared : a.Declared)
    (hreceived : received method c'.out.wire = some (status, body)) :
    status = a.response.statusCode ∧
      body = a.body (responseAllowsBody method.upper a.response.statusCode) := by
  obtain ⟨head, w, hsend, hpush, hcount, -, -⟩ := Ctx.answer_done hW h hfinish
  have hsame : (Ctx.start W method keepAlive drained faults).toSend a.response = a.response := by
    rw [Ctx.toSend, if_neg fun h => hhead h.1]
  rw [hsame] at hsend
  obtain ⟨hcode, -, hnone, hsome⟩ := hW.response _ _ _ _ _ hsend
  obtain ⟨r, hr, hstatus, hbody⟩ := received_some hreceived
  rcases hpush.heads r hr with hmem | hpending
  · cases hmem
  · cases hpending
    refine ⟨hstatus.symm.trans hcode, ?_⟩
    rw [hcode, hpush.body] at hbody
    change (if (mayCarryBody method a.response.statusCode &&
      (scanResponseHeaders head.headers).hasChunked) = true then
      ChunkedCoding.decode (Ctx.answerBytes (framing w) a) = some body
      else Ctx.answerBytes (framing w) a = body) at hbody
    rw [← mayCarryBody_upper hhead hconnect]
    cases hcarry : mayCarryBody method a.response.statusCode with
    | false =>
      -- The parser lets no byte through.
      have hzero := hcount 0 (hnone hcarry)
      rw [hcarry, Bool.false_and, if_neg Bool.false_ne_true, hnone hcarry,
        Ctx.answerBytes_raw (by simp)] at hbody
      rw [← hbody]
      cases a with
      | complete response body => exact List.length_eq_zero_iff.1 hzero
      | stream response chunks ending => exact List.length_eq_zero_iff.1 hzero
      | sendfile response count moved fails => rfl
    | true =>
      obtain ⟨hlength, hkeeps, hchunked⟩ := hsome hcarry
      have hhanded : body = a.handed := by
        by_cases hc : framing w = .chunked
        · rw [hcarry, hchunked.1 hc, Bool.and_self, if_pos rfl, hc, decode_answerBytes] at hbody
          · exact (Option.some.inj hbody).symm
          · rintro response count moved fails rfl
            rw [hlength count (hkeeps count hdeclared)] at hc
            cases hc
        · rw [if_neg, Ctx.answerBytes_raw hc] at hbody
          · exact hbody.symm
          · rw [hcarry, Bool.true_and]
            exact fun h => hc (hchunked.2 h)
      rw [hhanded]
      cases a <;> rfl

end H11

end LocalPost.Http.Writer
