import LocalPost.Http.Compress.Headers
import LocalPost.Http.Compress.Negotiate

/-!
# The compressing context

A handler behind `compress_handler` answers through a proxy of its context, when the client accepts
one of the codings. The proxy hands each call on to the context, compressed if the response is
eligible.

`headersConsistent_iff`: the headers of a compressed response are consistent exactly when the
handler's own ones name no coding, not even `identity`, and for a buffered response no
`Transfer-Encoding`.
-/

set_option autoImplicit false

namespace LocalPost.Http.Compress

open LocalPost.Core
open LocalPost.Http.Writer

universe u

/-- The codings of the registry. -/
inductive Coding where
  | gzip
  | br
  deriving DecidableEq, Repr

/-- The key in the registry. -/
def Coding.text : Coding → Str
  | .gzip => ['g', 'z', 'i', 'p']
  | .br => ['b', 'r']

/-- `encoding.encode("ascii")`. -/
def Coding.name : Coding → Bytes
  | .gzip => [103, 122, 105, 112]
  | .br => [98, 114]

/-- The coding of a key. -/
def Coding.ofText? (text : Str) : Option Coding :=
  if text = Coding.gzip.text then some .gzip else if text = Coding.br.text then some .br else none

@[simp] theorem Coding.ofText?_text (coding : Coding) :
    Coding.ofText? coding.text = some coding := by
  cases coding <;> rfl

/-- A call that answers a request, for any kind of chunk iterator. Of `sendfile` the bytes that the
kernel moves, and whether the transfer raises. -/
inductive Call (χ : Type u) where
  | complete (response : Response) (body : Option Bytes)
  | stream (response : Response) (chunks : χ)
  | sendfile (response : Response) (count : Nat) (moved : Bytes) (fails : Bool)

/-- The response of a call. -/
def Call.response {χ : Type u} : Call χ → Response
  | .complete response _ => response
  | .stream response _ => response
  | .sendfile response _ _ _ => response

/-- `_ENCODERS`, and `_compress_stream` with a new encoder of `_STREAM_ENCODER_FACTORIES`. -/
structure Encoders (χ : Type u) where
  compress : Coding → Bytes → Bytes
  compressStream : Coding → χ → χ

/-- The fields of `_CompressedCtx`; of the context inside, the method of its request. -/
structure CompressedCtx where
  method : Bytes
  encoding : Coding
  minSize : Nat
  compressibleTypes : List Bytes
  deriving DecidableEq, Repr

section Forwarding

variable {χ : Type u} (E : Encoders χ)

namespace CompressedCtx

/-- `complete`: the call on the context inside. -/
def complete (c : CompressedCtx) (response : Response) (body : Option Bytes) : Call χ :=
  if !isCompressibleResponse response body c.method c.minSize c.compressibleTypes then
    .complete response body
  else
    -- There is a body: the decision takes no response without one.
    let compressed := E.compress c.encoding (body.getD [])
    .complete
      { response with headers := rewriteHeaders response.headers c.encoding.name compressed.length }
      (some compressed)

/-- `stream`: the call on the context inside. -/
def stream (c : CompressedCtx) (response : Response) (chunks : χ) : Call χ :=
  if !isStreamingEligible response c.method c.compressibleTypes then .stream response chunks
  else
    .stream { response with headers := streamingRewriteHeaders response.headers c.encoding.name }
      (E.compressStream c.encoding chunks)

/-- The call that comes out for one that the handler makes. -/
def forward (c : CompressedCtx) : Call χ → Call χ
  | .complete response body => c.complete E response body
  | .stream response chunks => c.stream E response chunks
  | .sendfile response count moved fails => .sendfile response count moved fails

/-- The response of a call is compressed. -/
def Eligible (c : CompressedCtx) : Call χ → Prop
  | .complete response body =>
    isCompressibleResponse response body c.method c.minSize c.compressibleTypes = true
  | .stream response _ => isStreamingEligible response c.method c.compressibleTypes = true
  | .sendfile _ _ _ _ => False

instance (c : CompressedCtx) : (call : Call χ) → Decidable (c.Eligible call)
  | .complete _ _ => inferInstanceAs (Decidable (_ = _))
  | .stream _ _ => inferInstanceAs (Decidable (_ = _))
  | .sendfile _ _ _ _ => inferInstanceAs (Decidable False)

end CompressedCtx

/-- The arguments of `compress_handler`, the algorithms by their checked names. -/
structure Middleware where
  serverPref : List Coding
  minSize : Nat
  compressibleTypes : List Bytes
  deriving DecidableEq, Repr

/-- The coding that is chosen for a request, if the context is wrapped. -/
def Middleware.chosen (F : FloatType) (m : Middleware) (request : Request) : Option Coding :=
  match getHeader request.headers acceptEncodingName with
  | none => none
  | some accept =>
    if request.method = headMethod then none
    -- The preferences are keys of the registry, so the key that comes back is in it.
    else (negotiate F accept (m.serverPref.map Coding.text)).bind Coding.ofText?

/-- `_CompressedCtx` for a request. -/
def Middleware.proxy (m : Middleware) (request : Request) (chosen : Coding) : CompressedCtx :=
  ⟨request.method, chosen, m.minSize, m.compressibleTypes⟩

/-- `wrapped`: what the call of the handler becomes. -/
def wrapped (F : FloatType) (m : Middleware) (request : Request) (call : Call χ) : Call χ :=
  match m.chosen F request with
  | none => call
  | some chosen => (m.proxy request chosen).forward E call

/-- The coding with which a response is compressed, if it is. -/
def Middleware.decision (F : FloatType) (m : Middleware) (request : Request)
    (call : Call χ) : Option Coding :=
  (m.chosen F request).filter fun chosen => (m.proxy request chosen).Eligible call

/-- A call compressed with `coding`: its body or chunks, and consistent headers. -/
def CompressedAs (coding : Coding) : Call χ → Call χ → Prop
  | .complete r body, .complete r' body' =>
    ∃ data, body = some data ∧ body' = some (E.compress coding data) ∧ r'.statusCode =
      r.statusCode ∧ r'.reason = r.reason ∧
        Consistent r.headers r'.headers coding.name (some (E.compress coding data).length)
  | .stream r chunks, .stream r' chunks' =>
    chunks' = E.compressStream coding chunks ∧ r'.statusCode = r.statusCode ∧ r'.reason = r.reason ∧
      Consistent r.headers r'.headers coding.name none
  | _, _ => False

/-- A response that is to be compressed comes out with consistent headers, any other one
unchanged. -/
def HeadersConsistent (F : FloatType) (m : Middleware) (request : Request) (call : Call χ) : Prop :=
  match m.decision F request call with
  | none => wrapped E F m request call = call
  | some coding => CompressedAs E coding call (wrapped E F m request call)

/-- The headers of a call name no coding, and those of a buffered response no
`Transfer-Encoding`. -/
def Unframed : Call χ → Prop
  | .complete r _ => values contentEncodingName r.headers = [] ∧ values transferEncodingName
    r.headers = []
  | .stream r _ => values contentEncodingName r.headers = []
  | .sendfile _ _ _ _ => True

/-! ## Negotiation picks a coding of the registry -/

theorem ofText?_negotiate (F : FloatType) (accept : Bytes) (prefs : List Coding) :
    (negotiate F accept (prefs.map Coding.text)).bind Coding.ofText? =
      prefs.find? fun coding => Accepts F accept coding.text := by
  rw [negotiate_eq, List.find?_map, Option.bind_map]
  have htext : (Coding.ofText? ∘ Coding.text) = some := funext Coding.ofText?_text
  rw [htext, Option.bind_fun_some]
  congr 1
  funext coding
  exact (Bool.decide_coe _).symm

/-- The chosen coding is one that the server offers and the client accepts. -/
theorem Middleware.chosen_spec {F : FloatType} {m : Middleware} {request : Request}
    {coding : Coding} (h : m.chosen F request = some coding) :
    coding ∈ m.serverPref ∧ request.method ≠ headMethod ∧
      ∃ accept, getHeader request.headers acceptEncodingName = some accept ∧
        Accepts F accept coding.text := by
  rw [chosen] at h
  cases haccept : getHeader request.headers acceptEncodingName with
  | none =>
    rw [haccept] at h
    cases h
  | some accept =>
    rw [haccept] at h
    dsimp only at h
    by_cases hhead : request.method = headMethod
    · rw [if_pos hhead] at h
      cases h
    · rw [if_neg hhead, ofText?_negotiate] at h
      have haccepts := List.find?_some h
      exact ⟨List.mem_of_find?_eq_some h, hhead, accept, rfl, of_decide_eq_true haccepts⟩

/-! ## What comes out -/

namespace CompressedCtx

variable {E}

/-- What is not eligible is handed on as it is. -/
theorem forward_of_not_eligible {c : CompressedCtx} {call : Call χ} (h : ¬c.Eligible call) :
    c.forward E call = call := by
  cases call with
  | complete response body =>
    have hrefused : isCompressibleResponse response body c.method c.minSize
      c.compressibleTypes = false :=
      Bool.eq_false_iff.2 h
    rw [forward, complete, hrefused]
    rfl
  | stream response chunks =>
    have hrefused : isStreamingEligible response c.method c.compressibleTypes = false :=
      Bool.eq_false_iff.2 h
    rw [forward, stream, hrefused]
    rfl
  | sendfile response count moved fails => rfl

/-- Only a response with a body is compressed as a whole. -/
theorem body_of_eligible {c : CompressedCtx} {response : Response} {body : Option Bytes}
    (h : c.Eligible (.complete response body : Call χ)) : ∃ data, body = some data := by
  cases body with
  | none =>
    have h' : isCompressibleResponse response none c.method c.minSize
      c.compressibleTypes = true := h
    rw [isCompressibleResponse] at h'
    split at h' <;> cases h'
  | some data => exact ⟨data, rfl⟩

/-- A body that is compressed goes out with its new headers. -/
theorem forward_complete {c : CompressedCtx} {response : Response} {data : Bytes}
    (h : c.Eligible (.complete response (some data) : Call χ)) :
    c.forward E (.complete response (some data)) =
      .complete { response with
        headers := rewriteHeaders response.headers c.encoding.name
          (E.compress c.encoding data).length }
        (some (E.compress c.encoding data)) := by
  have heligible : isCompressibleResponse response (some data) c.method c.minSize
      c.compressibleTypes = true := h
  rw [forward, complete, heligible, Bool.not_true, if_neg Bool.false_ne_true, Option.getD_some]

/-- So does a stream that is compressed. -/
theorem forward_stream {c : CompressedCtx} {response : Response} {chunks : χ}
    (h : c.Eligible (.stream response chunks)) :
    c.forward E (.stream response chunks) =
      .stream { response with headers := streamingRewriteHeaders response.headers c.encoding.name }
        (E.compressStream c.encoding chunks) := by
  have heligible : isStreamingEligible response c.method c.compressibleTypes = true := h
  rw [forward, stream, heligible, Bool.not_true, if_neg Bool.false_ne_true]

/-- An eligible call comes out compressed exactly when its headers name no coding and, for a
buffered response, no `Transfer-Encoding`. -/
theorem compressedAs_forward_iff {c : CompressedCtx} {call : Call χ} (h : c.Eligible call) :
    CompressedAs E c.encoding call (c.forward E call) ↔ Unframed call := by
  cases call with
  | complete response body =>
    obtain ⟨data, rfl⟩ := body_of_eligible h
    rw [forward_complete h, Unframed, ← consistent_rewriteHeaders_iff response.headers
      c.encoding.name (E.compress c.encoding data).length]
    constructor
    · rintro ⟨data', hdata, -, -, -, hconsistent⟩
      cases hdata
      exact hconsistent
    · intro hconsistent
      exact ⟨data, rfl, rfl, rfl, rfl, hconsistent⟩
  | stream response chunks =>
    rw [forward_stream h, Unframed, ← consistent_streamingRewriteHeaders_iff
      response.headers c.encoding.name]
    exact ⟨fun hcall => hcall.2.2.2, fun hconsistent => ⟨rfl, rfl, rfl, hconsistent⟩⟩
  | sendfile response count moved fails => exact absurd h id

end CompressedCtx

/-- For every request and every call of the handler, with any headers, body or iterator: the headers
come out consistent exactly when the response is not compressed, or its own headers name no coding
and, if it is buffered, no `Transfer-Encoding`. -/
theorem headersConsistent_iff (F : FloatType) (m : Middleware) (request : Request) (call : Call χ) :
    HeadersConsistent E F m request call ↔ (m.decision F request call = none ∨ Unframed call) := by
  rw [HeadersConsistent, Middleware.decision, wrapped]
  cases hchosen : m.chosen F request with
  | none =>
    rw [Option.filter_none]
    exact ⟨fun _ => .inl rfl, fun _ => rfl⟩
  | some chosen =>
    by_cases heligible : (m.proxy request chosen).Eligible call
    · rw [Option.filter_some, if_pos (decide_eq_true heligible)]
      have hiff := CompressedCtx.compressedAs_forward_iff (E := E) heligible
      exact ⟨fun h => .inr (hiff.1 h), fun h => hiff.2 (h.resolve_left (by simp))⟩
    · rw [Option.filter_some, if_neg (by simpa using heligible)]
      exact ⟨fun _ => .inl rfl, fun _ => CompressedCtx.forward_of_not_eligible heligible⟩

end Forwarding

/-- The conversion of the words `0` and `1`. -/
def zeroOne : FloatType where
  Value := Bool
  float := fun v => if v = [48] then some false else if v = [49] then some true else none
  zero := false
  one := true
  positive := id
  positive_zero := rfl
  positive_one := rfl

/-- Encoders that only put a mark before the data. -/
def marking : Encoders (List Bytes) where
  compress := fun _ data => 31 :: 139 :: data
  compressStream := fun _ chunks => [31, 139] :: chunks

/-- The argument `compressible_types={b"text/html"}`, with both codings and no least size. -/
def htmlOnly : Middleware := ⟨[.br, .gzip], 0, [[116, 101, 120, 116, 47, 104, 116, 109, 108]]⟩

/-- `GET /` with `Accept-Encoding: gzip`. -/
def gzipRequest : Request where
  method := [71, 69, 84]
  target := [47]
  path := [47]
  queryString := []
  headers := [(acceptEncodingName, Coding.gzip.name)]
  httpVersion := [49, 46, 49]

/-- An HTML page with one more header. -/
def page (header : Bytes × Bytes) : Call (List Bytes) :=
  .complete
    ⟨200, [(Bytes.contentTypeName, [116, 101, 120, 116, 47, 104, 116, 109, 108]), header], []⟩
    (some [104, 105])

/-- A page that says `Content-Encoding: identity` comes out with two codings, one with
`Transfer-Encoding: chunked` with two framings. -/
theorem page_inconsistent :
    ¬HeadersConsistent marking zeroOne htmlOnly gzipRequest
      (page (contentEncodingName, identityValue)) ∧
      ¬HeadersConsistent marking zeroOne htmlOnly gzipRequest
        (page (transferEncodingName, chunkedValue)) := by
  constructor
  · intro h
    obtain ⟨data, hbody, -, -, -, hconsistent⟩ := h
    exact absurd hconsistent.encoding (by decide)
  · intro h
    obtain ⟨data, hbody, -, -, -, hconsistent⟩ := h
    exact absurd (hconsistent.framing rfl) (by decide)

end LocalPost.Http.Compress
