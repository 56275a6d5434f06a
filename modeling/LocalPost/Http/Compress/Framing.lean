import LocalPost.Http.Compress.OldPeer

/-!
# The framing of a compressed response

What the compressing context does to the headers that frame a response: a buffered response gets a
`Content-Length`, a streamed one is eligible only without one, and neither gets or loses a
`Transfer-Encoding`.

`oldPeer_readable_iff`: for which calls of a handler a client that knows no chunks can read the
response, with or without the middleware.
-/

set_option autoImplicit false

namespace LocalPost.Http.Compress

open LocalPost.Core
open LocalPost.Http.Static (Numeral)
open LocalPost.Http.Writer
open LocalPost.Http.Writer.Httptools

/-! ## The scan, header by header -/

/-- `Connection: close`. -/
def saysClose (header : Bytes × Bytes) : Bool :=
  header.1.lower = connectionName ∧ contains closeValue header.2.lower = true

/-- `Content-Length` or `Transfer-Encoding`. -/
def isFraming (header : Bytes × Bytes) : Bool :=
  header.1.lower = Bytes.contentLengthName ∨ header.1.lower = transferEncodingName

/-- `Transfer-Encoding: chunked`. -/
def saysChunked (header : Bytes × Bytes) : Bool :=
  header.1.lower = transferEncodingName ∧ contains chunkedValue header.2.lower = true

/-- A header adds to each of the three flags on its own. -/
theorem scan_header (s : Scan) (header : Bytes × Bytes) :
    s.header header =
      ⟨s.hasClose || saysClose header, s.hasFraming || isFraming header,
        s.hasChunked || saysChunked header⟩ := by
  rw [Scan.header]
  -- The three names differ, so a header sets the flags of one of them only.
  by_cases hclose : header.1.lower = connectionName ∧ contains closeValue header.2.lower = true
  · have hlength : connectionName ≠ Bytes.contentLengthName := by decide
    have hcoding : connectionName ≠ transferEncodingName := by decide
    simp [saysClose, isFraming, saysChunked, hclose, hlength, hcoding]
  · have hsays : saysClose header = false := decide_eq_false hclose
    rw [if_neg hclose, hsays, Bool.or_false]
    by_cases hlength : header.1.lower = Bytes.contentLengthName
    · have hcoding : Bytes.contentLengthName ≠ transferEncodingName := by decide
      simp [isFraming, saysChunked, hlength, hcoding]
    · rw [if_neg hlength]
      by_cases hcoding : header.1.lower = transferEncodingName
      · simp [isFraming, saysChunked, hcoding]
      · simp [isFraming, saysChunked, hlength, hcoding]

/-- Each flag of the scan says whether there is such a header. -/
theorem scan_eq (headers : Headers) :
    scanResponseHeaders headers =
      ⟨headers.any saysClose, headers.any isFraming, headers.any saysChunked⟩ := by
  have hfold : ∀ s : Scan, headers.foldl Scan.header s = ⟨s.hasClose || headers.any saysClose,
      s.hasFraming || headers.any isFraming, s.hasChunked || headers.any saysChunked⟩ := by
    induction headers with
    | nil => simp
    | cons header headers ih =>
      intro s
      rw [List.foldl_cons, ih, scan_header]
      simp only [List.any_cons, Bool.or_assoc]
  rw [scanResponseHeaders, hfold]
  simp

/-! ## The scan of what is written -/

/-- A test that neither the coding header nor what is rewritten passes comes out the same. -/
theorem Rewriting.Keeps.any {given : Headers} {s : Rewriting} (h : s.Keeps given)
    {p : Bytes × Bytes → Bool} (hp : Untouched p) {encoding : Bytes}
    (hcoding : p (contentEncodingName, encoding) = false) :
    (s.out ++ [(contentEncodingName, encoding)]).any p = given.any p := by
  have hfilter : ∀ headers : Headers, headers.any p = !(headers.filter p).isEmpty := by
    intro headers
    rw [Bool.eq_iff_iff, List.any_eq_true, Bool.not_eq_true', Bool.eq_false_iff, ne_eq,
      List.isEmpty_iff, List.filter_eq_nil_iff]
    simp
  rw [hfilter, hfilter, List.filter_append, h.filter p hp,
    List.filter_cons_of_neg (by rw [hcoding]; exact Bool.false_ne_true),
      List.filter_nil, List.append_nil]

theorem untouched_saysClose : Untouched saysClose := by
  intro header h
  have hname := (of_decide_eq_true h).1
  rw [hname]
  exact ⟨by decide, by decide⟩

theorem untouched_saysChunked : Untouched saysChunked := by
  intro header h
  have hname := (of_decide_eq_true h).1
  rw [hname]
  exact ⟨by decide, by decide⟩

theorem untouched_coding : Untouched fun header => header.1.lower = transferEncodingName := by
  intro header h
  rw [of_decide_eq_true h]
  exact ⟨by decide, by decide⟩

theorem values_eq_nil_iff {name : Bytes} {headers : Headers} :
    values name headers = [] ↔ ∀ header ∈ headers, header.1.lower ≠ name := by
  rw [values, List.map_eq_nil_iff, List.filter_eq_nil_iff]
  simp

theorem mem_values {name value : Bytes} {headers : Headers} :
    value ∈ values name headers ↔ ∃ header ∈ headers, header.1.lower = name ∧ header.2 = value := by
  rw [values, List.mem_map]
  simp only [List.mem_filter, decide_eq_true_eq, and_assoc]

/-- One `Content-Length` is a declared length, unless there is a `Transfer-Encoding`. -/
theorem declares_iff {r : Response} {n : Nat} {text : Bytes}
    (hlength : values Bytes.contentLengthName r.headers = [text]) (htext : Numeral text n) :
    r.Declares n ↔ values transferEncodingName r.headers = [] := by
  rw [values_eq_nil_iff]
  constructor
  · exact fun h => h.2.2
  · intro hcoding
    have hmem : text ∈ values Bytes.contentLengthName r.headers := hlength ▸ List.mem_cons_self
    obtain ⟨header, hheader, hname, -⟩ := mem_values.1 hmem
    refine ⟨⟨header, hheader, hname⟩, fun header' hheader' hname' => ?_, hcoding⟩
    have hvalue : header'.2 ∈ values Bytes.contentLengthName r.headers :=
      mem_values.2 ⟨header', hheader', hname', rfl⟩
    rw [hlength, List.mem_singleton] at hvalue
    rw [hvalue]
    exact htext.int_eq

theorem not_declares {r : Response} {n : Nat} (h : values Bytes.contentLengthName r.headers = []) :
    ¬r.Declares n := by
  intro hdeclared
  obtain ⟨header, hheader, hname⟩ := hdeclared.1
  exact values_eq_nil_iff.1 h header hheader hname

/-- Without a length, the framing headers are the codings of the transfer. -/
theorem hasFraming_of_no_length {headers : Headers}
    (h : values Bytes.contentLengthName headers = []) : (scanResponseHeaders headers).hasFraming =
      headers.any fun header => header.1.lower = transferEncodingName := by
  rw [scan_eq, Bool.eq_iff_iff, List.any_eq_true, List.any_eq_true]
  apply exists_congr
  intro header
  apply and_congr_right
  intro hheader
  rw [isFraming, decide_eq_true_iff, decide_eq_true_iff]
  exact or_iff_right (values_eq_nil_iff.1 h header hheader)

/-- The text of a number is its numeral. -/
theorem numeral_decimalText (n : Nat) : Numeral (decimalText n) n := by
  have hdigit : ∀ d < 10, (UInt8.ofNat (48 + d) - 48).toNat = d := by decide
  -- the digits are written from the last one, and read back in the same order
  have hvalue : ∀ ds : List Nat, (∀ d ∈ ds, d < 10) →
      (ds.map fun d => UInt8.ofNat (48 + d)).foldr (fun x n => n * 10 + (x - 48).toNat) 0 =
        Nat.ofDigits 10 ds := by
    intro ds hds
    induction ds with
    | nil => rfl
    | cons d ds ih =>
      have htail := ih fun d' hd' => hds d' (List.mem_cons_of_mem _ hd')
      rw [List.map_cons, List.foldr_cons, htail, hdigit d (hds d List.mem_cons_self),
        Nat.ofDigits_cons]
      omega
  -- there is a digit, they are all digits, and their value is `n`
  refine ⟨?_, fun x hx => mem_decimalText hx, ?_⟩
  · rw [decimalText]
    split
    · exact List.cons_ne_nil _ _
    · rename_i hzero
      rw [ne_eq, List.reverse_eq_nil_iff, List.map_eq_nil_iff]
      exact Nat.digits_ne_nil_iff_ne_zero.2 hzero
  · rw [decimalText]
    split
    · rename_i hzero
      rw [hzero]
      rfl
    · have hlt : ∀ d ∈ Nat.digits 10 n, d < 10 := fun d hd => Nat.digits_lt_base (by decide) hd
      rw [Static.value, List.foldl_reverse, hvalue _ hlt, Nat.ofDigits_digits]

/-! ## What comes out of the compressing context -/

section Forwarded

variable {E : Encoders (List Bytes)} {c : CompressedCtx}

/-- Only a response that may have a body is compressed. -/
theorem allowsBody_of_not_excluded {method : Bytes} {status : Nat} (hmethod : method ≠ headMethod)
    (hstatus : excludedStatus status = false) : responseAllowsBody method status = true := by
  rw [excludedStatus, decide_eq_false_iff_not] at hstatus
  rw [responseAllowsBody, decide_eq_true hmethod]
  simp only [not_or, not_and, Nat.not_lt] at hstatus
  simp only [Bool.true_and, Bool.not_eq_true', Bool.or_eq_false_iff, Bool.and_eq_false_iff,
    decide_eq_false_iff_not]
  omega

/-- An eligible response may have a body. -/
theorem allowsBody_of_eligible {call : Call (List Bytes)} (h : c.Eligible call) :
    responseAllowsBody c.method call.response.statusCode = true := by
  cases call with
  | complete r body =>
    obtain ⟨data, rfl⟩ := CompressedCtx.body_of_eligible h
    have heligible : isCompressibleResponse r (some data) c.method c.minSize
      c.compressibleTypes = true := h
    rw [isCompressibleResponse] at heligible
    -- no HEAD response is eligible, nor one whose status has no body
    by_cases hmethod : c.method = headMethod
    · rw [if_pos hmethod] at heligible
      cases heligible
    · rw [if_neg hmethod] at heligible
      split at heligible
      · cases heligible
      · split at heligible
        · cases heligible
        · rename_i hstatus
          exact allowsBody_of_not_excluded hmethod (Bool.eq_false_iff.2 hstatus)
  | stream r chunks =>
    have heligible : isStreamingEligible r c.method c.compressibleTypes = true := h
    rw [isStreamingEligible] at heligible
    by_cases hmethod : c.method = headMethod
    · rw [if_pos hmethod] at heligible
      cases heligible
    · rw [if_neg hmethod] at heligible
      split at heligible
      · cases heligible
      · rename_i hstatus
        exact allowsBody_of_not_excluded hmethod (Bool.eq_false_iff.2 hstatus)
  | sendfile r count moved fails => exact absurd h id

/-- A streamed response with a length is passed on. -/
theorem no_length_of_eligibleHeaders {types : List Bytes} {headers : Headers} {has : Bool}
    (h : eligibleHeaders true types headers has = true) :
    ∀ header ∈ headers, header.1.lower ≠ Bytes.contentLengthName := by
  induction headers generalizing has with
  | nil => simp
  | cons header headers ih =>
    rw [eligibleHeaders] at h
    dsimp only at h
    by_cases hlength : true = true ∧ header.1.lower = Bytes.contentLengthName
    · rw [if_pos hlength] at h
      cases h
    · rw [if_neg hlength] at h
      -- Whatever the header is, a walk that says yes has gone on behind it.
      have htail : ∃ has', eligibleHeaders true types headers has' = true := by
        split at h
        · split at h
          · cases h
          · exact ⟨_, h⟩
        · split at h
          · split at h
            · cases h
            · exact ⟨_, h⟩
          · split at h
            · exact ⟨_, h⟩
            · exact ⟨_, h⟩
      obtain ⟨has', htail⟩ := htail
      intro header' hmem
      rcases List.mem_cons.1 hmem with rfl | hmem
      · exact fun hname => hlength ⟨rfl, hname⟩
      · exact ih htail header' hmem

/-- The close of a compressed response is that of the handler's, and so is what it says of
chunks. -/
theorem scan_forward {call : Call (List Bytes)} (h : c.Eligible call) :
    (scanResponseHeaders (c.forward E call).response.headers).hasClose =
        (scanResponseHeaders call.response.headers).hasClose ∧
      (scanResponseHeaders (c.forward E call).response.headers).hasChunked =
        (scanResponseHeaders call.response.headers).hasChunked := by
  have hclose : saysClose (contentEncodingName, c.encoding.name) = false := rfl
  have hchunked : saysChunked (contentEncodingName, c.encoding.name) = false := rfl
  cases call with
  | complete r body =>
    obtain ⟨data, rfl⟩ := CompressedCtx.body_of_eligible h
    obtain ⟨s, heq, -, hkeeps, -⟩ :=
      exists_rewriteHeaders r.headers c.encoding.name (E.compress c.encoding data).length
    rw [CompressedCtx.forward_complete h]
    simp only [Call.response, heq, scan_eq]
    exact ⟨hkeeps.any untouched_saysClose hclose, hkeeps.any untouched_saysChunked hchunked⟩
  | stream r chunks =>
    obtain ⟨s, heq, -, hkeeps, -⟩ := exists_streamingRewriteHeaders r.headers c.encoding.name
    rw [CompressedCtx.forward_stream h]
    simp only [Call.response, heq, scan_eq]
    exact ⟨hkeeps.any untouched_saysClose hclose, hkeeps.any untouched_saysChunked hchunked⟩
  | sendfile r count moved fails => exact absurd h id

/-- A compressed buffered response has its new length for framing, unless the handler's has a
`Transfer-Encoding`. -/
theorem framed_complete_iff {r : Response} {data : Bytes} {closes : Prop}
    (h : c.Eligible (.complete r (some data) : Call (List Bytes))) :
    CallFramed c.method closes (c.forward E (.complete r (some data))) ↔
      closes ∨ values transferEncodingName r.headers = [] := by
  have hallowed : responseAllowsBody c.method r.statusCode = true := allowsBody_of_eligible h
  obtain ⟨s, heq, hsound, hkeeps, -, hreplaced⟩ :=
    exists_rewriteHeaders r.headers c.encoding.name (E.compress c.encoding data).length
  rw [CompressedCtx.forward_complete h]
  simp only [CallFramed, Framed, hallowed, Option.getD_some, heq, forall_const, Bool.true_eq_false,
    false_or]
  have hlength : values Bytes.contentLengthName
    (s.out ++ [(contentEncodingName, c.encoding.name)]) =
      [decimalText (E.compress c.encoding data).length] := by
    rw [values_append, hsound.length, hreplaced, if_pos rfl]
    rfl
  have hcoding : values transferEncodingName (s.out ++ [(contentEncodingName, c.encoding.name)]) =
      values transferEncodingName r.headers := by
    rw [values_append, hkeeps.values (by decide) (by decide)]
    exact List.append_nil _
  obtain ⟨header, hheader, hname, -⟩ := mem_values.1 (hlength ▸ List.mem_cons_self)
  rw [declares_iff hlength (numeral_decimalText _), hcoding]
  exact and_iff_right (hasFraming_of_mem hheader hname)

/-- A compressed stream is framed when the handler's is: by its own `Transfer-Encoding`, on a
connection that is closed. -/
theorem framed_stream_iff {r : Response} {chunks : List Bytes} {closes : Prop}
    (h : c.Eligible (.stream r chunks : Call (List Bytes))) :
    CallFramed c.method closes (c.forward E (.stream r chunks)) ↔
      CallFramed c.method closes (.stream r chunks) := by
  have hallowed : responseAllowsBody c.method r.statusCode = true := allowsBody_of_eligible h
  have heligible : isStreamingEligible r c.method c.compressibleTypes = true := h
  obtain ⟨s, heq, hsound, hkeeps, -, hreplaced⟩ :=
    exists_streamingRewriteHeaders r.headers c.encoding.name
  -- a streamed response with a length of its own is not eligible
  have hnone : values Bytes.contentLengthName r.headers = [] := by
    rw [isStreamingEligible] at heligible
    split at heligible
    · cases heligible
    · split at heligible
      · cases heligible
      · exact values_eq_nil_iff.2 (no_length_of_eligibleHeaders heligible)
  -- and the rewritten one gets none, so both are framed by the same coding or not at all
  have hnone' : values Bytes.contentLengthName
      (s.out ++ [(contentEncodingName, c.encoding.name)]) = [] := by
    rw [values_append, hsound.length, hreplaced, if_neg Bool.false_ne_true]
    rfl
  have hdeclares : ¬r.Declares chunks.flatten.length := not_declares hnone
  have hdeclares' : ¬Response.Declares
      ⟨r.statusCode, s.out ++ [(contentEncodingName, c.encoding.name)], r.reason⟩
      (E.compressStream c.encoding chunks).flatten.length := not_declares hnone'
  rw [CompressedCtx.forward_stream h]
  simp only [CallFramed, Framed, hallowed, heq]
  rw [hasFraming_of_no_length hnone, hasFraming_of_no_length hnone',
    hkeeps.any untouched_coding rfl]
  simp only [hdeclares, hdeclares', or_false]

end Forwarded

/-! ## With or without the middleware -/

/-- The call that the context gets, with or without `compress_handler` around the handler. -/
def behind (E : Encoders (List Bytes)) (F : FloatType) (mw : Option Middleware) (request : Request)
    (call : Call (List Bytes)) : Call (List Bytes) :=
  match mw with
  | none => call
  | some m => wrapped E F m request call

/-- The response is compressed. -/
def Compressed (F : FloatType) (mw : Option Middleware) (request : Request)
    (call : Call (List Bytes)) : Prop :=
  ∃ m, mw = some m ∧ (m.decision F request call).isSome = true

/-- The condition on the call of the handler: a buffered response that is compressed gets its
length, any other one must be framed as it is. -/
def HandlerFramed (F : FloatType) (mw : Option Middleware) (request : Request) (closes : Prop) :
    Call (List Bytes) → Prop
  | .complete r body =>
    (Compressed F mw request (.complete r body) → closes ∨
      values transferEncodingName r.headers = []) ∧
      (¬Compressed F mw request (.complete r body) →
        CallFramed request.method closes (.complete r body))
  | .stream r chunks => CallFramed request.method closes (.stream r chunks)
  | .sendfile r count moved fails =>
    CallFramed request.method closes (.sendfile r count moved fails)

/-- A call is handed on as it is, or compressed by the proxy. -/
theorem behind_cases (E : Encoders (List Bytes)) (F : FloatType) (mw : Option Middleware)
    (request : Request) (call : Call (List Bytes)) :
    (¬Compressed F mw request call ∧ behind E F mw request call = call) ∨
      ∃ c : CompressedCtx, c.method = request.method ∧ c.Eligible call ∧ Compressed F mw
        request call ∧ behind E F mw request call = c.forward E call := by
  cases mw with
  | none =>
    refine .inl ⟨?_, rfl⟩
    rintro ⟨m, hm, -⟩
    cases hm
  | some m =>
    rw [behind, wrapped]
    -- no coding was chosen, or the response is not eligible: the call is handed on as it is
    cases hchosen : m.chosen F request with
    | none =>
      refine .inl ⟨?_, rfl⟩
      rintro ⟨m', hm, hdecision⟩
      cases hm
      rw [Middleware.decision, hchosen] at hdecision
      cases hdecision
    | some chosen =>
      by_cases heligible : (m.proxy request chosen).Eligible call
      · refine .inr ⟨m.proxy request chosen, rfl, heligible, ⟨m, rfl, ?_⟩, rfl⟩
        rw [Middleware.decision, hchosen, Option.filter_some, if_pos (decide_eq_true heligible)]
        rfl
      · refine .inl ⟨?_, CompressedCtx.forward_of_not_eligible heligible⟩
        rintro ⟨m', hm, hdecision⟩
        cases hm
        rw [Middleware.decision, hchosen, Option.filter_some, if_neg (by simpa using heligible)]
          at hdecision
        cases hdecision

/-- A call that is passed on is framed exactly if it is framed as it came. -/
theorem handlerFramed_of_passed {F : FloatType} {mw : Option Middleware} {request : Request}
    {closes : Prop} {call : Call (List Bytes)} (h : ¬Compressed F mw request call) :
    HandlerFramed F mw request closes call ↔ CallFramed request.method closes call := by
  cases call with
  | complete r body =>
    constructor
    · exact fun hframed => hframed.2 h
    · exact fun hframed => ⟨fun hcompressed => absurd hcompressed h, fun _ => hframed⟩
  | stream r chunks => exact Iff.rfl
  | sendfile r count moved fails => exact Iff.rfl

/-- A call that is compressed is framed exactly under the condition on what is made of it. -/
theorem handlerFramed_of_compressed {E : Encoders (List Bytes)} {F : FloatType}
    {mw : Option Middleware}
    {request : Request} {closes : Prop} {call : Call (List Bytes)} {c : CompressedCtx}
    (hmethod : c.method = request.method) (heligible : c.Eligible call)
    (h : Compressed F mw request call) :
    HandlerFramed F mw request closes call ↔
      CallFramed request.method closes (c.forward E call) := by
  rw [← hmethod]
  cases call with
  | complete r body =>
    obtain ⟨data, rfl⟩ := CompressedCtx.body_of_eligible heligible
    rw [framed_complete_iff heligible]
    constructor
    · exact fun hframed => hframed.1 h
    · exact fun hframed => ⟨fun _ => hframed, fun hnot => absurd h hnot⟩
  | stream r chunks =>
    rw [framed_stream_iff heligible, hmethod]
    exact Iff.rfl
  | sendfile r count moved fails => exact absurd heligible id

/-- What closes the connection is the `Connection` header of the response only. -/
theorem closes_congr {r r' : Response}
    (h : (scanResponseHeaders r.headers).hasClose = (scanResponseHeaders r'.headers).hasClose)
    {keepAlive closing : Bool} {handling : Handling} :
    Closes keepAlive closing r handling = Closes keepAlive closing r' handling := by
  cases handling with
  | inline expects whole followed => rw [Closes, Closes, h]
  | pooled early whole shuttingDown => rw [Closes, Closes, h]

/-- For every call of a handler that does not ask for chunks itself, on the selector thread or on a
worker, with or without the middleware, and whatever the socket does: a client that knows no chunks
can read the response exactly when the handler's own headers frame it. The version of the request
plays no part. -/
theorem oldPeer_readable_iff (E : Encoders (List Bytes)) (F : FloatType) (mw : Option Middleware)
    (request : Request) (keepAlive closing : Bool) (handling : Handling) (call : Call (List Bytes))
    (hchunked : (scanResponseHeaders call.response.headers).hasChunked = false) :
    (∀ faults, Readable request.method handling (behind E F mw request call)
        (served request.method keepAlive closing (behind E F mw request call) faults)) ↔
      HandlerFramed F mw request (Closes keepAlive closing call.response handling) call := by
  rcases behind_cases E F mw request call with
    ⟨hpassed, hcall⟩ | ⟨c, hmethod, heligible, hcompressed, hcall⟩
  · rw [hcall, readable_served_iff request.method keepAlive closing handling hchunked,
      handlerFramed_of_passed hpassed]
  · obtain ⟨hclose, hscan⟩ := scan_forward (E := E) heligible
    rw [hcall, readable_served_iff request.method keepAlive closing handling (hscan.trans hchunked),
      handlerFramed_of_compressed hmethod heligible hcompressed, closes_congr hclose]

/-- `GET / HTTP/1.0` from a client that keeps the connection and takes gzip. -/
def oldRequest : Request :=
  { gzipRequest with
    headers := [(connectionName, [107, 101, 101, 112, 45, 97, 108, 105, 118, 101]),
      (acceptEncodingName, Coding.gzip.name)]
    httpVersion := [49, 46, 48] }

/-- Two bytes with their length, by a worker. -/
theorem oldPeer_reads_length :
    (scanResponseHeaders [(Bytes.contentLengthName, [50])]).hasChunked = false ∧
    ∀ faults, Readable oldRequest.method (.pooled false true false)
      (behind marking zeroOne none oldRequest
        (.complete ⟨200, [(Bytes.contentLengthName, [50])], []⟩ (some [104, 105])))
      (served oldRequest.method true false
        (behind marking zeroOne none oldRequest
          (.complete ⟨200, [(Bytes.contentLengthName, [50])], []⟩ (some [104, 105]))) faults) := by
  refine ⟨by decide, (oldPeer_readable_iff marking zeroOne none oldRequest true false
    (.pooled false true false)
    (.complete ⟨200, [(Bytes.contentLengthName, [50])], []⟩ (some [104, 105])) (by decide)).2
      ⟨?_, ?_⟩⟩
  · rintro ⟨m, hm, -⟩
    cases hm
  · exact fun _ => ⟨fun _ => by decide, .inr (.inr (by decide))⟩

/-- An HTML page that is streamed without framing headers is chunked for a request of HTTP/1.0, with
and without the middleware. -/
theorem oldPeer_gets_chunks :
    oldRequest.httpVersion = [49, 46, 48] ∧
      ∀ mw ∈ [none, some htmlOnly],
        ¬∀ faults, Readable oldRequest.method (.inline false true false)
          (behind marking zeroOne mw oldRequest
            (.stream
              ⟨200, [(Bytes.contentTypeName, [116, 101, 120, 116, 47, 104, 116, 109, 108])], []⟩
                [[104, 105]]))
          (served oldRequest.method true false
            (behind marking zeroOne mw oldRequest
              (.stream
                ⟨200, [(Bytes.contentTypeName, [116, 101, 120, 116, 47, 104, 116, 109, 108])], []⟩
                [[104, 105]])) faults) := by
  refine ⟨rfl, fun mw hmw h => ?_⟩
  have hheads := (h []).unchunked
  rcases List.mem_cons.1 hmw with rfl | hmw
  · exact absurd
      (hheads ⟨200, [(Bytes.contentTypeName, [116, 101, 120, 116, 47, 104, 116, 109, 108]),
      (transferEncodingName, chunkedValue)], []⟩ (by decide)) (by decide)
  · rw [List.mem_singleton.1 hmw] at hheads
    exact absurd
      (hheads ⟨200, [(Bytes.contentTypeName, [116, 101, 120, 116, 47, 104, 116, 109, 108]),
      (varyName, acceptEncodingToken), (contentEncodingName, Coding.gzip.name),
      (transferEncodingName, chunkedValue)], []⟩ (by decide)) (by decide)

end LocalPost.Http.Compress
