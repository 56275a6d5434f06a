import LocalPost.Core.ListEntries
import LocalPost.Http.Static.Range
import LocalPost.Http.Writer.HeadBytes

/-!
# The headers of a compressed response

Two walks over the headers of a response, each in a version for buffered and one for streamed
responses: one decides whether the response is compressed, the other writes the new headers.
`mergeVary` adds `Accept-Encoding` to a list of tokens.

Written headers say the coding and the length once and leave the rest alone (`Consistent`), except
that the walk keeps a `Content-Encoding` that says nothing, and for a buffered response a
`Transfer-Encoding` (`consistent_rewriteHeaders_iff`, `consistent_streamingRewriteHeaders_iff`).
-/

set_option autoImplicit false

namespace LocalPost.Http.Compress

open LocalPost.Core
open LocalPost.Http.Bytes (strip)
open LocalPost.Http.Static (partition)
open LocalPost.Http.Writer

/-- The headers of a message in order. -/
abbrev Headers := List (Bytes × Bytes)

/-- `b"content-encoding"`. -/
def contentEncodingName : Bytes :=
  [99, 111, 110, 116, 101, 110, 116, 45, 101, 110, 99, 111, 100, 105, 110, 103]

/-- `b"vary"`. -/
def varyName : Bytes := [118, 97, 114, 121]

/-- `b"accept-encoding"`. -/
def acceptEncodingName : Bytes :=
  [97, 99, 99, 101, 112, 116, 45, 101, 110, 99, 111, 100, 105, 110, 103]

/-- `b"Accept-Encoding"`. -/
def acceptEncodingToken : Bytes :=
  [65, 99, 99, 101, 112, 116, 45, 69, 110, 99, 111, 100, 105, 110, 103]

/-- `b"identity"`. -/
def identityValue : Bytes := [105, 100, 101, 110, 116, 105, 116, 121]

/-- `b"no-transform"`. -/
def noTransform : Bytes := [110, 111, 45, 116, 114, 97, 110, 115, 102, 111, 114, 109]

/-- `_get_header`. -/
def getHeader : Headers → Bytes → Option Bytes
  | [], _ => none
  | (n, v) :: headers, name => if n.lower = name.lower then some v else getHeader headers name

/-! ## The decision -/

/-- The statuses without a body of their own, and 206. -/
def excludedStatus (status : Nat) : Bool :=
  status = 204 ∨ status = 304 ∨ (100 ≤ status ∧ status < 200) ∨ status = 206

/-- The walk that decides, for `has_compressible_type` so far. That of a streamed response also
stops at a `Content-Length`. -/
def eligibleHeaders (streamed : Bool) (compressibleTypes : List Bytes) : Headers → Bool → Bool
  | [], hasCompressibleType => hasCompressibleType
  | (name, value) :: headers, hasCompressibleType =>
    let n := name.lower
    if streamed = true ∧ n = Bytes.contentLengthName then false
    else if n = contentEncodingName then
      -- An empty value and `identity` are let through, and stay in the headers.
      let v := (strip value).lower
      if v ≠ [] ∧ v ≠ identityValue then false
      else eligibleHeaders streamed compressibleTypes headers hasCompressibleType
    -- A substring of the whole value, not a directive of it.
    else if n = Bytes.cacheControlName then
      if contains noTransform value.lower then false
      else eligibleHeaders streamed compressibleTypes headers hasCompressibleType
    else if n = Bytes.contentTypeName ∧ hasCompressibleType = false then
      let mainType := (strip (partition 59 value).1).lower
      eligibleHeaders streamed compressibleTypes headers (decide (mainType ∈ compressibleTypes))
    else eligibleHeaders streamed compressibleTypes headers hasCompressibleType

/-- `_is_compressible_response`. -/
def isCompressibleResponse (response : Response) (body : Option Bytes) (method : Bytes)
    (minSize : Nat) (compressibleTypes : List Bytes) : Bool :=
  if method = headMethod then false
  else
    match body with
    | none => false
    | some body =>
      if body.length < minSize then false
      else if excludedStatus response.statusCode then false
      else eligibleHeaders false compressibleTypes response.headers false

/-- `_is_streaming_eligible`. -/
def isStreamingEligible (response : Response) (method : Bytes) (compressibleTypes : List Bytes) :
    Bool :=
  if method = headMethod then false
  else if excludedStatus response.statusCode then false
  else eligibleHeaders true compressibleTypes response.headers false

/-! ## The rewriting -/

/-- The tokens of a list, without the blanks around them. -/
def listTokens (stripped : Bytes) : List Bytes := ((stripped.splitOn 44).map strip).filter (· ≠ [])

/-- `_merge_vary`. -/
def mergeVary (existing : Bytes) : Bytes :=
  let stripped := strip existing
  if stripped = [42] then existing
  else
    let tokens := listTokens stripped
    if tokens.any fun t => t.lower = acceptEncodingName then existing
    else [44, 32].intercalate (tokens ++ [acceptEncodingToken])

/-- `out`, `vary_seen` and `cl_replaced`. -/
structure Rewriting where
  out : Headers
  varySeen : Bool
  clReplaced : Bool
  deriving DecidableEq, Repr

/-- The loop of `_rewrite_headers`. -/
def Rewriting.header (newLength : Nat) (s : Rewriting) (header : Bytes × Bytes) : Rewriting :=
  let n := header.1.lower
  if n = Bytes.contentLengthName then
    -- Only the first one is kept.
    if s.clReplaced then s
    else { s with out := s.out ++ [(header.1, decimalText newLength)], clReplaced := true }
  else if n = varyName then
    { s with out := s.out ++ [(header.1, mergeVary header.2)], varySeen := true }
  else { s with out := s.out ++ [header] }

/-- `_rewrite_headers`. -/
def rewriteHeaders (headers : Headers) (encoding : Bytes) (newLength : Nat) : Headers :=
  let s := headers.foldl (Rewriting.header newLength) ⟨[], false, false⟩
  let out := if s.clReplaced then s.out
    else s.out ++ [(Bytes.contentLengthName, decimalText newLength)]
  let out := if s.varySeen then out else out ++ [(varyName, acceptEncodingToken)]
  out ++ [(contentEncodingName, encoding)]

/-- The loop of `_streaming_rewrite_headers`. -/
def Rewriting.streamedHeader (s : Rewriting) (header : Bytes × Bytes) : Rewriting :=
  let n := header.1.lower
  -- The decision has turned down a response with a length, so there is none here.
  if n = Bytes.contentLengthName then s
  else if n = varyName then
    { s with out := s.out ++ [(header.1, mergeVary header.2)], varySeen := true }
  else { s with out := s.out ++ [header] }

/-- `_streaming_rewrite_headers`. -/
def streamingRewriteHeaders (headers : Headers) (encoding : Bytes) : Headers :=
  let s := headers.foldl Rewriting.streamedHeader ⟨[], false, false⟩
  let out := if s.varySeen then s.out else s.out ++ [(varyName, acceptEncodingToken)]
  out ++ [(contentEncodingName, encoding)]

/-! ## Consistent headers -/

/-- The values of the headers of a name, whatever its case. -/
def values (name : Bytes) (headers : Headers) : List Bytes :=
  (headers.filter fun header => header.1.lower = name).map Prod.snd

/-- A `Vary` value that names `Accept-Encoding`, or everything. -/
def Covers (value : Bytes) : Prop :=
  strip value = [42] ∨ ∃ t ∈ listTokens (strip value), t.lower = acceptEncodingName

/-- A header that compression has nothing to say about. -/
def Other (buffered : Bool) (name : Bytes) : Prop :=
  name.lower ≠ Bytes.contentLengthName ∧ name.lower ≠ contentEncodingName ∧ name.lower ≠ varyName ∧
    (buffered = true → name.lower ≠ transferEncodingName)

instance (buffered : Bool) (name : Bytes) : Decidable (Other buffered name) :=
  inferInstanceAs (Decidable (_ ∧ _ ∧ _ ∧ _))

/-- The headers `emitted` for a response with the headers `given` say once how the body is coded
and, for a buffered one, how long it is. -/
structure Consistent (given emitted : Headers) (encoding : Bytes) (newLength : Option Nat) :
    Prop where
  length : values Bytes.contentLengthName emitted = (newLength.map decimalText).toList
  framing : newLength.isSome = true → values transferEncodingName emitted = []
  encoding : values contentEncodingName emitted = [encoding]
  vary : (∃ value, value ∈ values varyName emitted) ∧
    ∀ value ∈ values varyName emitted, Covers value
  others : (emitted.filter fun header => Other newLength.isSome header.1) =
    given.filter fun header => Other newLength.isSome header.1

theorem values_append (name : Bytes) (headers headers' : Headers) :
    values name (headers ++ headers') = values name headers ++ values name headers' := by
  rw [values, List.filter_append, List.map_append, values, values]

theorem values_singleton (name : Bytes) (header : Bytes × Bytes) :
    values name [header] = if header.1.lower = name then [header.2] else [] := by
  rw [values, List.filter_cons]
  by_cases h : header.1.lower = name
  · rw [if_pos (decide_eq_true h), if_pos h]
    rfl
  · rw [if_neg (by simpa using h), if_neg h]
    rfl

/-- The token behind the last separator is a token of the list. -/
theorem mem_listTokens_of_ends (before : Bytes) :
    acceptEncodingToken ∈ listTokens (strip (before ++ 44 :: 32 :: acceptEncodingToken)) := by
  obtain ⟨before', hbefore⟩ : ∃ before',
      (before ++ 44 :: 32 :: acceptEncodingToken).dropWhile Bytes.isSpace =
        before' ++ 44 :: 32 :: acceptEncodingToken := by
    -- The blanks that go stand before the separator.
    rw [List.dropWhile_append]
    split
    · exact ⟨[], rfl⟩
    · exact ⟨_, rfl⟩
  have hstrip : strip (before ++ 44 :: 32 :: acceptEncodingToken) =
      before' ++ 44 :: 32 :: acceptEncodingToken := by
    have hlast : acceptEncodingToken = acceptEncodingToken.dropLast ++ [103] := rfl
    rw [strip, hbefore, hlast, ← List.cons_append, ← List.cons_append, ← List.append_assoc]
    exact List.rdropWhile_concat_neg _ _ _ (by decide)
  have hcomma : (44 : UInt8) ∉ 32 :: acceptEncodingToken := by decide
  rw [hstrip, listTokens, List.splitOn_append_cons_self, List.splitOn_eq_singleton hcomma,
    List.mem_filter]
  refine ⟨List.mem_map.2 ⟨32 :: acceptEncodingToken, ?_, by decide⟩, by decide⟩
  exact List.mem_append_right _ List.mem_cons_self

/-- Whatever the value was, the merged one covers `Accept-Encoding`. -/
theorem covers_mergeVary (existing : Bytes) : Covers (mergeVary existing) := by
  rw [mergeVary]
  dsimp only
  by_cases hstar : strip existing = [42]
  · rw [if_pos hstar]
    exact .inl hstar
  · rw [if_neg hstar]
    by_cases hlisted :
      ((listTokens (strip existing)).any fun t => t.lower = acceptEncodingName) = true
    · rw [if_pos hlisted]
      obtain ⟨t, hmem, ht⟩ := List.any_eq_true.1 hlisted
      exact .inr ⟨t, hmem, of_decide_eq_true ht⟩
    · rw [if_neg hlisted]
      refine .inr ⟨acceptEncodingToken, ?_, by decide⟩
      cases htokens : listTokens (strip existing) with
      | nil => decide
      | cons t ts =>
        rw [intercalate_concat _ (List.cons_ne_nil t ts)]
        exact mem_listTokens_of_ends _

/-! ## What the walks write -/

/-- The lengths and the `Vary` headers written so far. -/
structure Rewriting.Sound (newLength : Nat) (s : Rewriting) : Prop where
  length : values Bytes.contentLengthName s.out = if s.clReplaced then
    [decimalText newLength] else []
  seen : s.varySeen = true ↔ ∃ value, value ∈ values varyName s.out
  covers : ∀ value ∈ values varyName s.out, Covers value

theorem Rewriting.sound_start (newLength : Nat) : Rewriting.Sound newLength ⟨[], false, false⟩ where
  length := rfl
  seen := ⟨fun h => Bool.noConfusion h, fun h => absurd h.choose_spec List.not_mem_nil⟩
  covers := fun _ h => by cases h

/-- One header more is written. -/
theorem Rewriting.Sound.write {newLength : Nat} {s s' : Rewriting} (h : s.Sound newLength)
    {header : Bytes × Bytes} (hout : s'.out = s.out ++ [header])
    (hlength : if header.1.lower = Bytes.contentLengthName then
        s.clReplaced = false ∧ s'.clReplaced = true ∧ header.2 = decimalText newLength
      else s'.clReplaced = s.clReplaced)
    (hvary : if header.1.lower = varyName then s'.varySeen = true ∧ Covers header.2
      else s'.varySeen = s.varySeen) : s'.Sound newLength where
  length := by
    rw [hout, values_append, values_singleton, h.length]
    -- the one header that may add a length is the first of them
    by_cases hname : header.1.lower = Bytes.contentLengthName
    · rw [if_pos hname] at hlength ⊢
      obtain ⟨hbefore, hafter, hvalue⟩ := hlength
      rw [hbefore, hafter, hvalue]
      rfl
    · rw [if_neg hname] at hlength ⊢
      rw [hlength, List.append_nil]
  seen := by
    rw [hout, values_append, values_singleton]
    -- the same for Vary: what is written is seen, and covers the new name
    by_cases hname : header.1.lower = varyName
    · rw [if_pos hname] at hvary ⊢
      exact ⟨fun _ => ⟨header.2, List.mem_append_right _ List.mem_cons_self⟩, fun _ => hvary.1⟩
    · rw [if_neg hname] at hvary ⊢
      rw [hvary, List.append_nil]
      exact h.seen
  covers := by
    rw [hout, values_append, values_singleton]
    intro value hvalue
    by_cases hname : header.1.lower = varyName
    · rw [if_pos hname] at hvary hvalue
      rcases List.mem_append.1 hvalue with hvalue | hvalue
      · exact h.covers value hvalue
      · rw [List.mem_singleton.1 hvalue]
        exact hvary.2
    · rw [if_neg hname, List.append_nil] at hvalue
      exact h.covers value hvalue

theorem length_ne_vary : Bytes.contentLengthName ≠ varyName := by decide

/-- A header keeps the count of the lengths and of the `Vary` headers. -/
theorem Rewriting.Sound.header {newLength : Nat} {s : Rewriting} (h : s.Sound newLength)
    (header : Bytes × Bytes) : (s.header newLength header).Sound newLength := by
  rw [Rewriting.header]
  by_cases hlength : header.1.lower = Bytes.contentLengthName
  -- a Content-Length is replaced once, and later ones are dropped
  · rw [if_pos hlength]
    have hvary : header.1.lower ≠ varyName := hlength ▸ length_ne_vary
    cases hreplaced : s.clReplaced with
    | true => exact h
    | false =>
      rw [if_neg Bool.false_ne_true]
      refine h.write rfl ?_ ?_
      · rw [if_pos hlength]
        exact ⟨hreplaced, rfl, rfl⟩
      · rw [if_neg hvary]
  · rw [if_neg hlength]
    -- a Vary is merged with the new name; any other header is copied
    by_cases hvary : header.1.lower = varyName
    · rw [if_pos hvary]
      refine h.write rfl ?_ ?_
      · rw [if_neg hlength]
      · rw [if_pos hvary]
        exact ⟨rfl, covers_mergeVary header.2⟩
    · rw [if_neg hvary]
      refine h.write rfl ?_ ?_
      · rw [if_neg hlength]
      · rw [if_neg hvary]

/-- The walk of a streamed response skips a `Content-Length` and otherwise does what that of a
buffered one does. -/
theorem Rewriting.streamedHeader_eq (newLength : Nat) (s : Rewriting) (header : Bytes × Bytes) :
    s.streamedHeader header =
      if header.1.lower = Bytes.contentLengthName then s else s.header newLength header := by
  rw [Rewriting.streamedHeader, Rewriting.header]
  split <;> rfl

theorem Rewriting.Sound.streamedHeader {newLength : Nat} {s : Rewriting} (h : s.Sound newLength)
    (header : Bytes × Bytes) : (s.streamedHeader header).Sound newLength := by
  rw [Rewriting.streamedHeader_eq newLength]
  split
  · exact h
  · exact h.header header

/-- A class of headers with neither a length nor a `Vary` in it. -/
def Untouched (p : Bytes × Bytes → Bool) : Prop :=
  ∀ header, p header = true →
    header.1.lower ≠ Bytes.contentLengthName ∧ header.1.lower ≠ varyName

/-- A header without a length or a `Vary` is copied. -/
theorem Rewriting.filter_header {p : Bytes × Bytes → Bool} (hp : Untouched p) (newLength : Nat)
    (s : Rewriting) (header : Bytes × Bytes) :
    (s.header newLength header).out.filter p = s.out.filter p ++ [header].filter p := by
  -- A header of another name or value is not in the class.
  have hsame : ∀ value, header.1.lower = Bytes.contentLengthName ∨ header.1.lower = varyName →
      [(header.1, value)].filter p = [] := by
    intro value hname
    rw [List.filter_cons_of_neg, List.filter_nil]
    intro hmem
    rcases hname with hname | hname
    · exact (hp _ hmem).1 hname
    · exact (hp _ hmem).2 hname
  rw [Rewriting.header]
  by_cases hlength : header.1.lower = Bytes.contentLengthName
  · rw [if_pos hlength, hsame header.2 (.inl hlength), List.append_nil]
    split
    · rfl
    · rw [List.filter_append, hsame _ (.inl hlength), List.append_nil]
  · rw [if_neg hlength]
    by_cases hvary : header.1.lower = varyName
    · rw [if_pos hvary, hsame header.2 (.inr hvary), List.filter_append, hsame _ (.inr hvary)]
    · rw [if_neg hvary, List.filter_append]

theorem Rewriting.filter_streamedHeader {p : Bytes × Bytes → Bool} (hp : Untouched p)
    (s : Rewriting) (header : Bytes × Bytes) :
    (s.streamedHeader header).out.filter p = s.out.filter p ++ [header].filter p := by
  rw [Rewriting.streamedHeader_eq 0]
  by_cases hlength : header.1.lower = Bytes.contentLengthName
  · rw [if_pos hlength, List.filter_cons_of_neg, List.filter_nil, List.append_nil]
    exact fun hmem => (hp header hmem).1 hlength
  · rw [if_neg hlength]
    exact Rewriting.filter_header hp 0 s header

/-- What one header keeps and adds, a whole walk does. -/
theorem Rewriting.foldl_sound (newLength : Nat) (step : Rewriting → Bytes × Bytes → Rewriting)
    (hsound : ∀ s header, s.Sound newLength → (step s header).Sound newLength)
    (headers : Headers) {s : Rewriting} (h : s.Sound newLength) :
    (headers.foldl step s).Sound newLength := by
  induction headers generalizing s with
  | nil => exact h
  | cons header headers ih => exact ih (hsound s header h)

theorem Rewriting.filter_foldl {p : Bytes × Bytes → Bool}
    {step : Rewriting → Bytes × Bytes → Rewriting}
    (hstep : ∀ s header, (step s header).out.filter p = s.out.filter p ++ [header].filter p)
    (headers : Headers) (s : Rewriting) :
    (headers.foldl step s).out.filter p = s.out.filter p ++ headers.filter p := by
  induction headers generalizing s with
  | nil => rw [List.foldl_nil, List.filter_nil, List.append_nil]
  | cons header headers ih =>
    rw [List.foldl_cons, ih, hstep, List.append_assoc, ← List.filter_append, List.singleton_append]

theorem Rewriting.clReplaced_streamed (headers : Headers) (s : Rewriting) :
    (headers.foldl Rewriting.streamedHeader s).clReplaced = s.clReplaced := by
  induction headers generalizing s with
  | nil => rfl
  | cons header headers ih =>
    rw [List.foldl_cons, ih, Rewriting.streamedHeader]
    split
    · rfl
    · split <;> rfl

/-! ## What follows the walks -/

/-- A length is added where none was replaced. -/
def Rewriting.addLength (newLength : Nat) (s : Rewriting) : Rewriting :=
  if s.clReplaced then s
  else
    { s with
      out := s.out ++ [(Bytes.contentLengthName, decimalText newLength)], clReplaced := true }

/-- A `Vary` is added where none was seen. -/
def Rewriting.addVary (s : Rewriting) : Rewriting :=
  if s.varySeen then s
  else { s with out := s.out ++ [(varyName, acceptEncodingToken)], varySeen := true }

theorem rewriteHeaders_eq (headers : Headers) (encoding : Bytes) (newLength : Nat) :
    rewriteHeaders headers encoding newLength =
      ((headers.foldl (Rewriting.header newLength) ⟨[], false, false⟩).addLength
        newLength).addVary.out ++ [(contentEncodingName, encoding)] := by
  rw [rewriteHeaders, Rewriting.addVary, Rewriting.addLength]
  cases hreplaced : (headers.foldl (Rewriting.header newLength) ⟨[], false, false⟩).clReplaced <;>
    cases hseen : (headers.foldl (Rewriting.header newLength) ⟨[], false, false⟩).varySeen <;>
      simp [hseen]

theorem streamingRewriteHeaders_eq (headers : Headers) (encoding : Bytes) :
    streamingRewriteHeaders headers encoding =
      (headers.foldl Rewriting.streamedHeader ⟨[], false, false⟩).addVary.out ++
        [(contentEncodingName, encoding)] := by
  rw [streamingRewriteHeaders, Rewriting.addVary]
  cases hseen : (headers.foldl Rewriting.streamedHeader ⟨[], false, false⟩).varySeen <;> rfl

theorem Rewriting.Sound.addLength {newLength : Nat} {s : Rewriting} (h : s.Sound newLength) :
    (s.addLength newLength).Sound newLength ∧ (s.addLength newLength).clReplaced = true := by
  rw [Rewriting.addLength]
  cases hreplaced : s.clReplaced with
  | true => exact ⟨h, hreplaced⟩
  | false =>
    refine ⟨h.write rfl ?_ ?_, rfl⟩
    · exact ⟨hreplaced, rfl, rfl⟩
    · exact rfl

/-- With the added `Vary` there is one, and the lengths stay as they are. -/
theorem Rewriting.Sound.addVary {newLength : Nat} {s : Rewriting} (h : s.Sound newLength) :
    s.addVary.Sound newLength ∧ s.addVary.varySeen = true ∧
      s.addVary.clReplaced = s.clReplaced := by
  rw [Rewriting.addVary]
  cases hseen : s.varySeen with
  | true => exact ⟨h, hseen, rfl⟩
  | false =>
    have hcovers : Covers acceptEncodingToken := .inr ⟨acceptEncodingToken, by decide, by decide⟩
    refine ⟨h.write rfl ?_ ?_, rfl, rfl⟩
    · exact rfl
    · exact ⟨rfl, hcovers⟩

theorem Rewriting.filter_addLength {p : Bytes × Bytes → Bool} (hp : Untouched p) (newLength : Nat)
    (s : Rewriting) : (s.addLength newLength).out.filter p = s.out.filter p := by
  rw [Rewriting.addLength]
  split
  · rfl
  · rw [List.filter_append, List.filter_cons_of_neg fun hmem => (hp _ hmem).1 rfl, List.filter_nil,
      List.append_nil]

theorem Rewriting.filter_addVary {p : Bytes × Bytes → Bool} (hp : Untouched p) (s : Rewriting) :
    s.addVary.out.filter p = s.out.filter p := by
  rw [Rewriting.addVary]
  split
  · rfl
  · rw [List.filter_append, List.filter_cons_of_neg fun hmem => (hp _ hmem).2 rfl, List.filter_nil,
      List.append_nil]

/-- The walk leaves headers of other names as they are. -/
structure Rewriting.Keeps (given : Headers) (s : Rewriting) : Prop where
  filter : ∀ p, Untouched p → s.out.filter p = given.filter p

theorem Rewriting.Keeps.values {given : Headers} {s : Rewriting} (h : s.Keeps given) {name : Bytes}
    (hlength : name ≠ Bytes.contentLengthName) (hvary : name ≠ varyName) :
    values name s.out = values name given := by
  rw [Compress.values, h.filter, Compress.values]
  intro header hheader
  rw [of_decide_eq_true hheader]
  exact ⟨hlength, hvary⟩

/-- The written headers with the coding behind them are consistent unless the given ones name a
coding or, for a buffered response, a `Transfer-Encoding`. -/
theorem consistent_iff {given : Headers} {s : Rewriting} {encoding : Bytes} {newLength : Nat}
    {length : Option Nat} (hsound : s.Sound newLength) (hkeeps : s.Keeps given)
    (hseen : s.varySeen = true) (hlength : length = if s.clReplaced then some newLength else none) :
    Consistent given (s.out ++ [(contentEncodingName, encoding)]) encoding length ↔
      values contentEncodingName given = [] ∧
        (length.isSome = true → values transferEncodingName given = []) := by
  have hcoding : values contentEncodingName (s.out ++ [(contentEncodingName, encoding)]) =
      values contentEncodingName given ++ [encoding] := by
    rw [values_append, hkeeps.values (by decide) (by decide)]
    rfl
  have hframing : values transferEncodingName (s.out ++ [(contentEncodingName, encoding)]) =
      values transferEncodingName given := by
    rw [values_append, hkeeps.values (by decide) (by decide)]
    exact List.append_nil _
  constructor
  · intro h
    -- The coding is written behind whatever the walk has kept.
    have hone := h.encoding
    rw [hcoding] at hone
    refine ⟨List.append_left_eq_self.1 hone, fun hbuffered => ?_⟩
    rw [← hframing]
    exact h.framing hbuffered
  · rintro ⟨hnone, hframe⟩
    have hvary : values varyName (s.out ++ [(contentEncodingName, encoding)]) =
        values varyName s.out := by
      rw [values_append]
      exact List.append_nil _
    refine ⟨?_, fun hbuffered => ?_, ?_, ?_, ?_⟩
    · rw [values_append, hsound.length, hlength]
      cases s.clReplaced <;> rfl
    · rw [hframing]
      exact hframe hbuffered
    · rw [hcoding, hnone, List.nil_append]
    · rw [hvary]
      exact ⟨hsound.seen.1 hseen, hsound.covers⟩
    · rw [List.filter_append, hkeeps.filter]
      · exact List.append_nil _
      · intro header hheader
        exact ⟨(of_decide_eq_true hheader).1, (of_decide_eq_true hheader).2.2.1⟩

/-- What `_rewrite_headers` writes before the coding. -/
theorem exists_rewriteHeaders (given : Headers) (encoding : Bytes) (newLength : Nat) :
    ∃ s : Rewriting, rewriteHeaders given encoding newLength = s.out ++
      [(contentEncodingName, encoding)] ∧
      s.Sound newLength ∧ s.Keeps given ∧ s.varySeen = true ∧ s.clReplaced = true := by
  have hwalk := Rewriting.foldl_sound newLength (Rewriting.header newLength)
    (fun s header hs => hs.header header) given (Rewriting.sound_start newLength)
  have hlength := hwalk.addLength
  have hvary := hlength.1.addVary
  refine ⟨_, rewriteHeaders_eq given encoding newLength, hvary.1, ⟨fun p hp => ?_⟩, hvary.2.1, ?_⟩
  · rw [Rewriting.filter_addVary hp, Rewriting.filter_addLength hp,
      Rewriting.filter_foldl (Rewriting.filter_header hp newLength),
        List.filter_nil, List.nil_append]
  · rw [hvary.2.2, hlength.2]

/-- What `_streaming_rewrite_headers` writes before the coding. -/
theorem exists_streamingRewriteHeaders (given : Headers) (encoding : Bytes) :
    ∃ s : Rewriting, streamingRewriteHeaders given encoding = s.out ++
      [(contentEncodingName, encoding)] ∧
      s.Sound 0 ∧ s.Keeps given ∧ s.varySeen = true ∧ s.clReplaced = false := by
  have hwalk := Rewriting.foldl_sound 0 Rewriting.streamedHeader
    (fun s header hs => hs.streamedHeader header) given (Rewriting.sound_start 0)
  have hvary := hwalk.addVary
  refine ⟨_, streamingRewriteHeaders_eq given encoding, hvary.1, ⟨fun p hp => ?_⟩, hvary.2.1, ?_⟩
  · rw [Rewriting.filter_addVary hp, Rewriting.filter_foldl (Rewriting.filter_streamedHeader hp),
      List.filter_nil, List.nil_append]
  · rw [hvary.2.2, Rewriting.clReplaced_streamed]

/-- The headers of a buffered response are consistent exactly when the given ones name neither a
coding nor a `Transfer-Encoding`. -/
theorem consistent_rewriteHeaders_iff (given : Headers) (encoding : Bytes) (newLength : Nat) :
    Consistent given (rewriteHeaders given encoding newLength) encoding (some newLength) ↔
      values contentEncodingName given = [] ∧ values transferEncodingName given = [] := by
  obtain ⟨s, heq, hsound, hkeeps, hseen, hreplaced⟩ :=
    exists_rewriteHeaders given encoding newLength
  rw [heq, consistent_iff hsound hkeeps hseen (by rw [hreplaced, if_pos rfl])]
  simp only [Option.isSome_some, forall_const]

/-- The headers of a streamed response are consistent exactly when the given ones name no coding. -/
theorem consistent_streamingRewriteHeaders_iff (given : Headers) (encoding : Bytes) :
    Consistent given (streamingRewriteHeaders given encoding) encoding none ↔
      values contentEncodingName given = [] := by
  obtain ⟨s, heq, hsound, hkeeps, hseen, hreplaced⟩ := exists_streamingRewriteHeaders given encoding
  rw [heq, consistent_iff hsound hkeeps hseen (by rw [hreplaced, if_neg Bool.false_ne_true])]
  simp

end LocalPost.Http.Compress
