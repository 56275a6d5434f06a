import LocalPost.Http.Types

/-!
# Responses

The neutral `Response`, what both native backends read off its headers, and what a handler asks for:
`complete`, `stream` or `sendfile`.
-/

set_option autoImplicit false

namespace LocalPost.Http.Writer

/-- `Response`. -/
structure Response where
  statusCode : Nat
  headers : List (Bytes × Bytes)
  reason : Bytes
  deriving DecidableEq, Repr

/-- `b"connection"`. -/
def connectionName : Bytes := [99, 111, 110, 110, 101, 99, 116, 105, 111, 110]

/-- `b"close"`. -/
def closeValue : Bytes := [99, 108, 111, 115, 101]

/-- `b"transfer-encoding"`. -/
def transferEncodingName : Bytes :=
  [116, 114, 97, 110, 115, 102, 101, 114, 45, 101, 110, 99, 111, 100, 105,
    110, 103]

/-- `b"chunked"`. -/
def chunkedValue : Bytes := [99, 104, 117, 110, 107, 101, 100]

/-- `b"HEAD"`. -/
def headMethod : Bytes := [72, 69, 65, 68]

/-- `b"CONNECT"`. -/
def connectMethod : Bytes := [67, 79, 78, 78, 69, 67, 84]

/-- `needle in value`. -/
def contains (needle value : Bytes) : Bool := value.tails.any needle.isPrefixOf

/-- The result of `scan_response_headers`. -/
structure Scan where
  hasClose : Bool
  hasFraming : Bool
  hasChunked : Bool
  deriving DecidableEq, Repr

/-- The scan of one header. -/
def Scan.header (s : Scan) (header : Bytes × Bytes) : Scan :=
  let n := header.1.lower
  if n = connectionName ∧ contains closeValue header.2.lower then { s with hasClose := true }
  else if n = Bytes.contentLengthName then { s with hasFraming := true }
  else if n = transferEncodingName then
    { s with
      hasFraming := true, hasChunked := s.hasChunked || contains chunkedValue header.2.lower }
  else s

/-- `scan_response_headers`. -/
def scanResponseHeaders (headers : List (Bytes × Bytes)) : Scan :=
  headers.foldl Scan.header ⟨false, false, false⟩

/-- The length that the headers declare for `sendfile`: none may be a `Transfer-Encoding`, the last
`Content-Length` decides. -/
def declaredLength : List (Bytes × Bytes) → Option Int → Option (Option Int)
  | [], declared => some declared
  | (name, value) :: headers, declared =>
    if name.lower = transferEncodingName then none
    else if name.lower = Bytes.contentLengthName then
      (Bytes.int value).bind fun n => declaredLength headers (some n)
    else declaredLength headers declared

/-- The scan does not take its flags back. -/
theorem Scan.foldl_mono (headers : List (Bytes × Bytes)) (s : Scan) :
    (s.hasFraming = true → (headers.foldl Scan.header s).hasFraming = true) ∧
    (s.hasChunked = true → (headers.foldl Scan.header s).hasChunked = true) := by
  induction headers generalizing s with
  | nil => exact ⟨id, id⟩
  | cons header headers ih =>
    have hstep : (s.hasFraming = true → (s.header header).hasFraming = true) ∧
        (s.hasChunked = true → (s.header header).hasChunked = true) := by
      rw [Scan.header]
      split
      · exact ⟨id, id⟩
      · split
        · exact ⟨fun _ => rfl, id⟩
        · split
          · exact ⟨fun _ => rfl, fun h => by rw [h, Bool.true_or]⟩
          · exact ⟨id, id⟩
    exact ⟨fun h => (ih _).1 (hstep.1 h), fun h => (ih _).2 (hstep.2 h)⟩

theorem hasFraming_of_mem {headers : List (Bytes × Bytes)} {header : Bytes × Bytes}
    (hmem : header ∈ headers) (hname : header.1.lower = Bytes.contentLengthName) :
    (scanResponseHeaders headers).hasFraming = true := by
  obtain ⟨before, after, rfl⟩ := List.append_of_mem hmem
  rw [scanResponseHeaders, List.foldl_append, List.foldl_cons]
  refine (Scan.foldl_mono after _).1 ?_
  have hother : Bytes.contentLengthName ≠ connectionName := by decide
  rw [Scan.header, hname, if_neg fun hboth => hother hboth.1, if_pos rfl]

/-- Only a transfer coding says chunked. -/
theorem Scan.foldl_hasChunked {headers : List (Bytes × Bytes)}
    (h : ∀ header ∈ headers, header.1.lower ≠ transferEncodingName) (s : Scan) :
    (headers.foldl Scan.header s).hasChunked = s.hasChunked := by
  induction headers generalizing s with
  | nil => rfl
  | cons header headers ih =>
    have hstep : (s.header header).hasChunked = s.hasChunked := by
      rw [Scan.header, if_neg (h header List.mem_cons_self)]
      split
      · rfl
      · split <;> rfl
    rw [List.foldl_cons, ih fun header' hmem => h header' (List.mem_cons_of_mem _ hmem), hstep]

/-- The added header makes a response chunked. -/
theorem hasChunked_append (headers : List (Bytes × Bytes)) :
    (scanResponseHeaders (headers ++ [(transferEncodingName, chunkedValue)])).hasChunked =
    true := by
  have hlower : transferEncodingName.lower = transferEncodingName := by decide
  have hvalue : contains chunkedValue chunkedValue.lower = true := by decide
  rw [scanResponseHeaders, List.foldl_append, List.foldl_cons, List.foldl_nil, Scan.header]
  rw [if_neg (by decide), if_neg (by decide), if_pos hlower]
  exact (congrArg _ hvalue).trans (Bool.or_true _)

/-- `_response_allows_body`. -/
def responseAllowsBody (method : Bytes) (statusCode : Nat) : Bool :=
  method ≠ headMethod &&
    !((100 ≤ statusCode && statusCode < 200) || statusCode = 204 || statusCode = 304)

/-- The response may carry a body; a successful answer to CONNECT does not. -/
def mayCarryBody (method : Bytes) (statusCode : Nat) : Bool :=
  responseAllowsBody method statusCode &&
    !(method = connectMethod && 200 ≤ statusCode && statusCode < 300)

/-- The head declares the length `n` of its body: by `Content-Length`, and without
`Transfer-Encoding`, which would take its place. -/
def Response.Declares (r : Response) (n : Nat) : Prop :=
  (∃ header ∈ r.headers, header.1.lower = Bytes.contentLengthName) ∧
  (∀ header ∈ r.headers, header.1.lower = Bytes.contentLengthName →
    Bytes.int header.2 = some (n : Int)) ∧
  ∀ header ∈ r.headers, header.1.lower ≠ transferEncodingName

instance (r : Response) (n : Nat) : Decidable (r.Declares n) :=
  inferInstanceAs (Decidable (_ ∧ _ ∧ _))

/-- A declared length is one number. -/
theorem Response.Declares.unique {r : Response} {n m : Nat} (h : r.Declares n) (h' : r.Declares m) :
    n = m := by
  obtain ⟨header, hmem, hname⟩ := h.1
  have hn := h.2.1 header hmem hname
  rw [h'.2.1 header hmem hname, Option.some.injEq] at hn
  exact (Int.ofNat.inj hn).symm

/-- A declared length is the framing. -/
theorem Response.Declares.scan {r : Response} {n : Nat} (h : r.Declares n) :
    (scanResponseHeaders r.headers).hasFraming = true ∧
    (scanResponseHeaders r.headers).hasChunked = false := by
  obtain ⟨header, hmem, hname⟩ := h.1
  exact ⟨hasFraming_of_mem hmem hname, Scan.foldl_hasChunked h.2.2 _⟩

theorem not_declares_append (r : Response) (n : Nat) :
    ¬Response.Declares
      { r with headers := r.headers ++ [(transferEncodingName, chunkedValue)] } n := by
  intro h
  exact h.2.2 (transferEncodingName, chunkedValue) (List.mem_append_right _ List.mem_cons_self)
    (by decide)

/-- `INTERNAL_ERROR_BODY`. -/
def internalErrorBody : Bytes :=
  [73, 110, 116, 101, 114, 110, 97, 108, 32, 83, 101, 114, 118, 101, 114, 32,
    69, 114, 114, 111, 114]

/-- `INTERNAL_ERROR_RESPONSE`. -/
def internalErrorResponse : Response where
  statusCode := 500
  headers := [(Bytes.contentTypeName, Bytes.plainText), (Bytes.contentLengthName, [50, 49]),
    (connectionName, closeValue)]
  reason := []

/-- What ends the iterator of `stream`, or the loop over it. -/
inductive Ending where
  | finished
  | raises
  | cancelled
  deriving DecidableEq, Repr

/-- How a handler answers. For `sendfile` the bytes that the kernel moves, and whether the call then
raises. -/
inductive Answer where
  | complete (r : Response) (body : Option Bytes)
  | stream (r : Response) (chunks : List Bytes) (ending : Ending)
  | sendfile (r : Response) (count : Nat) (moved : Bytes) (fails : Bool)
  deriving DecidableEq, Repr

/-- The answer to a request whose handler raised. -/
def internalError : Answer := .complete internalErrorResponse (some internalErrorBody)

/-- The response of an answer. -/
def Answer.response : Answer → Response
  | .complete r _ => r
  | .stream r _ _ => r
  | .sendfile r _ _ _ => r

/-- The bytes handed over for the body. -/
def Answer.handed : Answer → Bytes
  | .complete _ body => body.getD []
  | .stream _ chunks _ => chunks.flatten
  | .sendfile _ _ moved _ => moved

/-- The bytes for the body add up to the declared length, where the answer gets that far: `sendfile`
is refused for another length. -/
def Answer.AddsUp (n : Nat) : Answer → Prop
  | .complete _ body => (body.getD []).length = n
  | .stream _ chunks ending => ending = .finished → chunks.flatten.length = n
  | .sendfile _ count moved fails => count = n → fails = false → moved.length = n

instance (n : Nat) : (a : Answer) → Decidable (a.AddsUp n)
  | .complete _ body => inferInstanceAs (Decidable ((body.getD []).length = n))
  | .stream _ chunks ending =>
    inferInstanceAs (Decidable (ending = .finished → chunks.flatten.length = n))
  | .sendfile _ count moved fails =>
    inferInstanceAs (Decidable (count = n → fails = false → moved.length = n))

/-- The kernel moves all the bytes that `sendfile` asks for. -/
def Answer.TransfersAll : Answer → Prop
  | .complete _ _ => True
  | .stream _ _ _ => True
  | .sendfile r count moved fails =>
    contentLength r.headers = some (count : Int) → fails = false → moved.length = count

instance : (a : Answer) → Decidable a.TransfersAll
  | .complete _ _ => .isTrue trivial
  | .stream _ _ _ => .isTrue trivial
  | .sendfile r count moved fails => inferInstanceAs (Decidable
      (contentLength r.headers = some (count : Int) → fails = false → moved.length = count))

/-- Neither the iterator nor the transfer raises, and nobody cancels. -/
def Answer.finishes : Answer → Bool
  | .complete _ _ => true
  | .stream _ _ ending => ending = .finished
  | .sendfile _ _ _ fails => !fails

end LocalPost.Http.Writer
