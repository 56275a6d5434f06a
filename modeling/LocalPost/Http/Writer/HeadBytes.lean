import LocalPost.Core.ResponseHead
import LocalPost.Http.HeaderText
import LocalPost.Http.Writer.H11
import LocalPost.Http.Writer.Httptools
import Mathlib.Data.Nat.Digits.Lemmas

/-!
# The bytes of a response head

The httptools backend writes the head itself, from the status, the reason and the headers as they
are. The h11 backend hands the response to its library, which refuses what is not a header; what it
refuses is its documentation (`Documented`).

`head_exact_iff` says which responses have a head that reads as themselves and are taken by both
backends or by neither. A line end in a value adds a header (`split_by_value`). A WSGI application
can supply every response (`wsgi_supplies`).
-/

set_option autoImplicit false

namespace LocalPost.Http.Writer

open LocalPost.Core

/-- A `Response` as anyone may build it: the status is any integer. -/
structure AnyResponse where
  statusCode : Int
  headers : List (Bytes × Bytes)
  reason : Bytes
  deriving DecidableEq, Repr

/-- The responses with a status that is not negative. -/
def AnyResponse.of (r : Response) : AnyResponse := ⟨r.statusCode, r.headers, r.reason⟩

/-! ## The serialiser -/

/-- The digits of a number. -/
def decimalText (n : Nat) : Bytes :=
  if n = 0 then [48] else ((Nat.digits 10 n).map fun d => UInt8.ofNat (48 + d)).reverse

/-- The limit of `sys.get_int_max_str_digits`. -/
def maxStrDigits : Nat := 4300

/-- `str(n).encode("ascii")`, which raises for a number of too many digits. -/
def strInt (n : Int) : Option Bytes :=
  if maxStrDigits < (Nat.digits 10 n.natAbs).length then none
  else some (if n < 0 then 45 :: decimalText n.natAbs else decimalText n.natAbs)

/-- `REASON_PHRASES`. -/
def reasonPhrases : List (Int × Bytes) :=
  [(100, [67, 111, 110, 116, 105, 110, 117, 101]),
   (200, [79, 75]),
   (204, [78, 111, 32, 67, 111, 110, 116, 101, 110, 116]),
   (301, [77, 111, 118, 101, 100, 32, 80, 101, 114, 109, 97, 110, 101, 110, 116, 108, 121]),
   (302, [70, 111, 117, 110, 100]),
   (304, [78, 111, 116, 32, 77, 111, 100, 105, 102, 105, 101, 100]),
   (400, [66, 97, 100, 32, 82, 101, 113, 117, 101, 115, 116]),
   (401, [85, 110, 97, 117, 116, 104, 111, 114, 105, 122, 101, 100]),
   (403, [70, 111, 114, 98, 105, 100, 100, 101, 110]),
   (404, [78, 111, 116, 32, 70, 111, 117, 110, 100]),
   (405, [77, 101, 116, 104, 111, 100, 32, 78, 111, 116, 32, 65, 108, 108, 111, 119, 101, 100]),
   (408, [82, 101, 113, 117, 101, 115, 116, 32, 84, 105, 109, 101, 111, 117, 116]),
   (413, [80, 97, 121, 108, 111, 97, 100, 32, 84, 111, 111, 32, 76, 97, 114, 103, 101]),
   (417, [69, 120, 112, 101, 99, 116, 97, 116, 105, 111, 110, 32, 70, 97, 105, 108, 101, 100]),
   (500, [73, 110, 116, 101, 114, 110, 97, 108, 32, 83, 101, 114, 118, 101, 114, 32, 69,
     114, 114, 111, 114]),
   (501, [78, 111, 116, 32, 73, 109, 112, 108, 101, 109, 101, 110, 116, 101, 100]),
   (502, [66, 97, 100, 32, 71, 97, 116, 101, 119, 97, 121]),
   (503, [83, 101, 114, 118, 105, 99, 101, 32, 85, 110, 97, 118, 97, 105, 108, 97, 98, 108, 101])]

/-- `r.reason or REASON_PHRASES.get(r.status_code, b"")`. -/
def AnyResponse.phrase (r : AnyResponse) : Bytes :=
  if r.reason ≠ [] then r.reason else (reasonPhrases.lookup r.statusCode).getD []

/-- `_serialize_response`. -/
def serializeResponse (r : AnyResponse) : Option Bytes :=
  (strInt r.statusCode).map fun code =>
    let out := [72, 84, 84, 80, 47, 49, 46, 49, 32] ++ code ++ [32] ++ r.phrase ++ [13, 10]
    (r.headers.foldl (fun out header => out ++ header.1 ++ [58, 32] ++ header.2 ++ [13, 10]) out) ++
      [13, 10]

/-! ## `start_response` of the two backends -/

/-- The response that httptools serialises: one that may have a body and has no framing is chunked.
The test for a body only knows statuses from 100 on. -/
def AnyResponse.framed (method : Bytes) (r : AnyResponse) : AnyResponse :=
  if responseAllowsBody method r.statusCode.toNat &&
    !(scanResponseHeaders r.headers).hasFraming then
    { r with headers := r.headers ++ [(transferEncodingName, chunkedValue)] }
  else r

/-- The head that `start_response` of httptools leaves pending; `none` when it raises. -/
def Httptools.startHead (method : Bytes) (r : AnyResponse) : Option Bytes :=
  serializeResponse (r.framed method)

/-- The response that h11 is asked to send. -/
def AnyResponse.toSend (method : Bytes) (r : AnyResponse) : AnyResponse :=
  if method = headMethod ∧ (scanResponseHeaders r.headers).hasFraming = false then
    { r with headers := r.headers ++ [(Bytes.contentLengthName, [48])] }
  else r

/-- Which responses `h11.Connection.send` takes when it has read a request, as documented: the
status is one of a final response, the names are tokens, the values are legal, which those of the
grammar are and those with a line end are not, and so are the headers that frame the body. -/
structure H11.Accepts.Documented (accepts : AnyResponse → Bool) (legalValue : Bytes → Bool)
    (legalFraming : List (Bytes × Bytes) → Bool) : Prop where
  accepts_iff : ∀ r : AnyResponse, accepts r = true ↔
    (200 ≤ r.statusCode ∧ r.statusCode < 1000) ∧
      (∀ header ∈ r.headers, ResponseHead.Token header.1 ∧ legalValue header.2 = true) ∧
      legalFraming r.headers = true
  legal : ∀ value, ResponseHead.FieldValue value → legalValue value = true
  one_line : ∀ value, legalValue value = true → (13 : UInt8) ∉ value ∧ (10 : UInt8) ∉ value

/-- The contexts of the two backends build the same responses. -/
theorem pending_startResponse (r : Response) (c : Httptools.Ctx) :
    (c.startResponse r).out.pending.map AnyResponse.of =
    some ((AnyResponse.of r).framed c.method) := by
  have hstatus : (AnyResponse.of r).statusCode.toNat = r.statusCode := rfl
  have hheaders : (AnyResponse.of r).headers = r.headers := rfl
  rw [Httptools.Ctx.startResponse, AnyResponse.framed, hstatus, hheaders]
  dsimp only
  split
  · rfl
  · rfl

theorem of_toSend {ω : Type} (r : Response) (c : H11.Ctx ω) :
    AnyResponse.of (c.toSend r) = (AnyResponse.of r).toSend c.method := by
  have hheaders : (AnyResponse.of r).headers = r.headers := rfl
  rw [H11.Ctx.toSend, AnyResponse.toSend, hheaders]
  split
  · rfl
  · rfl

/-! ## What the serialiser prints -/

/-- A number of three digits is a status code. -/
theorem decimalText_three {n : Nat} (h : 100 ≤ n) (h' : n < 1000) :
    ResponseHead.StatusCode (decimalText n) n := by
  have hdigits : Nat.digits 10 n = [n % 10, n / 10 % 10, n / 10 / 10 % 10] := by
    rw [Nat.digits_def' (by omega) (by omega), Nat.digits_def' (by omega) (by omega),
      Nat.digits_def' (by omega) (by omega), show n / 10 / 10 / 10 = 0 by omega, Nat.digits_zero]
  have hdigit : ∀ d < 10, (UInt8.ofNat (48 + d)).toNat - 48 = d := by decide
  refine ⟨_, _, _,
    ⟨Ascii.isDigit_ofNat (n / 10 / 10 % 10) (by omega), Ascii.isDigit_ofNat (n / 10 % 10)
      (by omega),
    Ascii.isDigit_ofNat (n % 10) (by omega)⟩, ?_, ?_⟩
  · rw [decimalText, if_neg (by omega), hdigits]
    rfl
  · rw [hdigit _ (by omega), hdigit _ (by omega), hdigit _ (by omega)]
    omega

theorem mem_decimalText {n : Nat} {x : UInt8} (h : x ∈ decimalText n) :
    Ascii.isDigit x = true := by
  rw [decimalText] at h
  split at h
  · rw [List.mem_singleton.1 h]
    rfl
  · obtain ⟨d, hd, rfl⟩ := List.mem_map.1 (List.mem_reverse.1 h)
    exact Ascii.isDigit_ofNat d (Nat.digits_lt_base (by omega) hd)

/-- The text of an integer has no blank. -/
theorem strInt_no_blank {n : Int} {code : Bytes} (h : strInt n = some code) :
    (32 : UInt8) ∉ code := by
  rw [strInt] at h
  split at h
  · cases h
  · intro hmem
    have hdigits : ∀ m : Nat, (32 : UInt8) ∉ decimalText m :=
      fun m hm => by cases mem_decimalText hm
    cases h
    split at hmem
    · rcases List.mem_cons.1 hmem with heq | hmem
      · cases heq
      · exact hdigits _ hmem
    · exact hdigits _ hmem

/-- A text of three digits is that of a number below a thousand. -/
theorem range_of_strInt {n : Int} {code : Bytes} {m : Nat} (h : strInt n = some code)
    (hcode : ResponseHead.StatusCode code m) : 100 ≤ n ∧ n < 1000 := by
  obtain ⟨x, y, z, ⟨hx, -, -⟩, rfl, -⟩ := hcode
  rw [strInt] at h
  split at h
  · cases h
  · by_cases hneg : n < 0
    · rw [if_pos hneg] at h
      rw [← (List.cons.inj (Option.some.inj h)).1] at hx
      cases hx
    · -- three digits are at least `100` and less than `1000`
      rw [if_neg hneg] at h
      have htext := Option.some.inj h
      rw [decimalText] at htext
      split at htext
      · cases htext
      · have hlength := congrArg List.length htext
        simp only [List.length_reverse, List.length_map, List.length_cons,
          List.length_nil] at hlength
        have hupper := (Nat.digits_length_le_iff (by omega : 1 < 10) (k := 3) n.natAbs).1 (by omega)
        have hlower := (Nat.lt_digits_length_iff (by omega : 1 < 10) (k := 2) n.natAbs).1 (by omega)
        omega

/-- The status texts that are three digits. -/
theorem strInt_three {n : Int} (h : 100 ≤ n ∧ n < 1000) :
    ∃ code, strInt n = some code ∧ ResponseHead.StatusCode code n.toNat := by
  have habs : n.natAbs = n.toNat := by omega
  have hlength : (Nat.digits 10 n.natAbs).length ≤ 3 :=
    (Nat.digits_length_le_iff (by omega) n.natAbs).2 (by omega)
  refine ⟨decimalText n.natAbs, ?_, ?_⟩
  · rw [strInt, if_neg (by rw [maxStrDigits]; omega), if_neg (by omega)]
  · rw [habs]
    exact decimalText_three (by omega) (by omega)

theorem foldl_headers (headers : List (Bytes × Bytes)) (out : Bytes) :
    headers.foldl (fun out header => out ++ header.1 ++ [58, 32] ++ header.2 ++ [13, 10]) out =
      out ++ headers.flatMap ResponseHead.printField := by
  induction headers generalizing out with
  | nil => simp
  | cons header headers ih =>
    rw [List.foldl_cons, ih, List.flatMap_cons]
    simp [ResponseHead.printField, Ascii.crlf]

/-- `_serialize_response` prints a head. -/
theorem serializeResponse_eq (r : AnyResponse) :
    serializeResponse r =
      (strInt r.statusCode).map fun code => ResponseHead.print code r.phrase r.headers := by
  rw [serializeResponse]
  simp only [foldl_headers]
  simp [ResponseHead.print, ResponseHead.printFields, Ascii.crlf]

/-- The phrase is text exactly if the reason is. -/
theorem text_phrase (r : AnyResponse) : ResponseHead.Text r.phrase ↔
    ResponseHead.Text r.reason := by
  rw [AnyResponse.phrase]
  split
  · exact Iff.rfl
  · rename_i hempty
    rw [not_not] at hempty
    rw [hempty]
    refine iff_of_true ?_ rfl
    cases hlookup : reasonPhrases.lookup r.statusCode with
    | none => rfl
    | some phrase =>
      have hall : ∀ entry ∈ reasonPhrases, ResponseHead.Text entry.2 := by decide
      obtain ⟨before, after, hsplit, -⟩ := List.lookup_eq_some_iff.1 hlookup
      exact hall (r.statusCode, phrase) (by rw [hsplit]; simp)

/-! ## Heads that read as themselves -/

/-- `start_response` raises, or what it leaves pending is the head of this response with the framing
header, and whatever follows is the body. -/
def ReadsBack (method : Bytes) (r : AnyResponse) : Prop :=
  Httptools.startHead method r = none ∨
    ∃ bytes, Httptools.startHead method r = some bytes ∧ ∀ rest, ∃ head,
      ResponseHead.parse (bytes ++ rest) = some (head, rest) ∧
        (head.status : Int) = r.statusCode ∧ head.fields = (r.framed method).headers

/-- Every part of the response is what the grammar allows there. -/
structure AnyResponse.Legal (r : AnyResponse) : Prop where
  reason : ResponseHead.Text r.reason
  headers : ∀ header ∈ r.headers, ResponseHead.Token header.1 ∧ ResponseHead.FieldValue header.2

theorem framed_fields (method : Bytes) (r : AnyResponse) :
    (r.framed method).statusCode = r.statusCode ∧ (r.framed method).phrase = r.phrase := by
  rw [AnyResponse.framed]
  split
  · exact ⟨rfl, rfl⟩
  · exact ⟨rfl, rfl⟩

/-- The framing header is legal. -/
theorem legal_framed (method : Bytes) (r : AnyResponse) :
    (∀ header ∈ (r.framed method).headers,
      ResponseHead.Token header.1 ∧ ResponseHead.FieldValue header.2) ↔
      ∀ header ∈ r.headers, ResponseHead.Token header.1 ∧ ResponseHead.FieldValue header.2 := by
  rw [AnyResponse.framed]
  split
  · simp only [List.forall_mem_append, List.forall_mem_singleton]
    exact and_iff_left ⟨by decide, by decide⟩
  · exact Iff.rfl

theorem startHead_none (method : Bytes) (r : AnyResponse) :
    Httptools.startHead method r = none ↔ strInt r.statusCode = none := by
  rw [Httptools.startHead, serializeResponse_eq, (framed_fields method r).1, Option.map_eq_none_iff]

/-- The head reads as the response exactly when the status has too many digits to be written, or
three, and every part is legal. -/
theorem readsBack_iff (method : Bytes) (r : AnyResponse) :
    ReadsBack method r ↔
      strInt r.statusCode = none ∨ ((100 ≤ r.statusCode ∧ r.statusCode < 1000) ∧ r.Legal) := by
  obtain ⟨hstatus, hphrase⟩ := framed_fields method r
  rw [ReadsBack, startHead_none]
  refine or_congr_right ?_
  rw [Httptools.startHead, serializeResponse_eq, hstatus, hphrase]
  constructor
  · rintro ⟨bytes, hbytes, hread⟩
    obtain ⟨code, hcode, rfl⟩ := Option.map_eq_some_iff.1 hbytes
    obtain ⟨head, hparse, -, hfields⟩ := hread []
    obtain ⟨hthree, htext, hlegal⟩ := (ResponseHead.parse_print_iff (strInt_no_blank hcode)).1
      ⟨head, hparse, rfl, hfields⟩
    exact ⟨range_of_strInt hcode hthree, (text_phrase r).1 htext, (legal_framed method r).1 hlegal⟩
  · rintro ⟨hrange, hlegal⟩
    obtain ⟨code, hcode, hthree⟩ := strInt_three hrange
    refine ⟨_, by rw [hcode, Option.map_some], fun rest => ?_⟩
    obtain ⟨head, hparse, hnumber, hfields⟩ :=
      (@ResponseHead.parse_print_iff _ _ rest _ _ (strInt_no_blank hcode)).2
        ⟨hthree, (text_phrase r).2 hlegal.reason, (legal_framed method r).2 hlegal.headers⟩
    refine ⟨head, hparse, ?_, hfields⟩
    rw [hnumber]
    omega

/-- Both backends take the response, or neither does. -/
def SameVerdict (accepts : AnyResponse → Bool) (method : Bytes) (r : AnyResponse) : Prop :=
  (Httptools.startHead method r).isSome = accepts (r.toSend method)

instance (accepts : AnyResponse → Bool) (method : Bytes) (r : AnyResponse) :
    Decidable (SameVerdict accepts method r) := inferInstanceAs (Decidable (_ = _))

theorem toSend_fields (method : Bytes) (r : AnyResponse) :
    (r.toSend method).statusCode = r.statusCode ∧
    ∀ header ∈ r.headers, header ∈ (r.toSend method).headers := by
  rw [AnyResponse.toSend]
  split
  · exact ⟨rfl, fun header hmem => List.mem_append_left _ hmem⟩
  · exact ⟨rfl, fun header hmem => hmem⟩

/-- The header that h11 is given for a HEAD request is legal. -/
theorem legal_toSend {method : Bytes} {r : AnyResponse}
    (h : ∀ header ∈ r.headers, ResponseHead.Token header.1 ∧ ResponseHead.FieldValue header.2) :
    ∀ header ∈ (r.toSend method).headers,
      ResponseHead.Token header.1 ∧ ResponseHead.FieldValue header.2 := by
  rw [AnyResponse.toSend]
  split
  · simp only [List.forall_mem_append, List.forall_mem_singleton]
    exact ⟨h, by decide, by decide⟩
  · exact h

section Verdict

variable {accepts : AnyResponse → Bool} {legalValue : Bytes → Bool}
  {legalFraming : List (Bytes × Bytes) → Bool}

/-- A status that is too long to be written is not one of a final response. -/
theorem rejects_long (hlib : H11.Accepts.Documented accepts legalValue legalFraming)
    {method : Bytes}
    {r : AnyResponse} (h : strInt r.statusCode = none) : accepts (r.toSend method) = false := by
  rw [Bool.eq_false_iff]
  intro haccepts
  have hrange := ((hlib.accepts_iff _).1 haccepts).1
  rw [(toSend_fields method r).1] at hrange
  obtain ⟨code, hcode, -⟩ := strInt_three ⟨by omega, hrange.2⟩
  rw [h] at hcode
  cases hcode

/-- For every response and request: the head reads as the response and both backends give the same
verdict, if and only if the status is too long to be written, or it is one of a final response,
every part is legal and h11 has nothing against the framing. -/
theorem head_exact_iff (hlib : H11.Accepts.Documented accepts legalValue legalFraming)
    (method : Bytes) (r : AnyResponse) :
    ReadsBack method r ∧ SameVerdict accepts method r ↔
      strInt r.statusCode = none ∨
        ((200 ≤ r.statusCode ∧ r.statusCode < 1000) ∧ r.Legal ∧
          legalFraming (r.toSend method).headers = true) := by
  rw [readsBack_iff, SameVerdict]
  -- a status of too many digits for `str`: the encoding raises, and so does h11
  cases hcode : strInt r.statusCode with
  | none =>
    rw [(startHead_none method r).2 hcode, rejects_long hlib hcode]
    simp
  | some code =>
    have hsome : (Httptools.startHead method r).isSome = true := by
      rw [Option.isSome_iff_ne_none, Ne, startHead_none, hcode]
      simp
    have htaken := hlib.accepts_iff (r.toSend method)
    rw [(toSend_fields method r).1] at htaken
    rw [hsome, @eq_comm Bool true, htaken]
    simp only [reduceCtorEq, false_or]
    constructor
    -- a head of three digits with legal headers
    · rintro ⟨⟨-, hlegal⟩, hrange, -, hframing⟩
      exact ⟨hrange, hlegal, hframing⟩
    · rintro ⟨hrange, hlegal, hframing⟩
      refine ⟨⟨⟨by omega, hrange.2⟩, hlegal⟩, hrange, fun header hmem => ?_, hframing⟩
      obtain ⟨hname, hvalue⟩ := legal_toSend hlegal.headers header hmem
      exact ⟨hname, hlib.legal _ hvalue⟩

/-- What splits the head through a header is taken by httptools alone. -/
theorem rejects_line_end (hlib : H11.Accepts.Documented accepts legalValue legalFraming)
    (method : Bytes) {r : AnyResponse} {header : Bytes × Bytes} (hmem : header ∈ r.headers)
    (hend : (13 : UInt8) ∈ header.1 ∨ (13 : UInt8) ∈ header.2) :
    accepts (r.toSend method) = false := by
  rw [Bool.eq_false_iff]
  intro haccepts
  obtain ⟨hname, hvalue⟩ :=
    ((hlib.accepts_iff _).1 haccepts).2.1 header ((toSend_fields method r).2 header hmem)
  rcases hend with hcr | hcr
  · exact ResponseHead.not_cr_of_token hname hcr
  · exact (hlib.one_line _ hvalue).1 hcr

end Verdict

/-! ## One response of each kind -/

/-- A library as documented, whose values are those of the grammar. -/
def H11.Accepts.legalFraming (headers : List (Bytes × Bytes)) : Bool :=
  headers.all fun header =>
    if header.1.lower = Bytes.contentLengthName then
      header.2 ≠ [] && header.2.all Ascii.isDigit
    else if header.1.lower = transferEncodingName then header.2.lower = chunkedValue
    else true

/-- The responses it takes. -/
def H11.Accepts.plain (r : AnyResponse) : Bool :=
  (200 ≤ r.statusCode ∧ r.statusCode < 1000) ∧
    (∀ header ∈ r.headers,
      ResponseHead.Token header.1 ∧ decide (ResponseHead.FieldValue header.2) = true) ∧
    H11.Accepts.legalFraming r.headers = true

theorem H11.Accepts.documented_plain :
    H11.Accepts.Documented plain (fun value => ResponseHead.FieldValue value) legalFraming where
  accepts_iff r := by rw [plain, decide_eq_true_eq]
  legal value h := decide_eq_true h
  one_line value h := by
    have htext := (of_decide_eq_true h).1
    refine ⟨ResponseHead.not_cr_of_text htext, fun hmem => ?_⟩
    have := List.all_eq_true.1 htext 10 hmem
    cases this

/-- `Response(200, headers=[(b"x", b"a")], reason=b"Fine")`. -/
def fine : AnyResponse := ⟨200, [([120], [97])], [70, 105, 110, 101]⟩

theorem head_exact_iff_fine :
    ReadsBack [71, 69, 84] fine ∧ SameVerdict H11.Accepts.plain [71, 69, 84] fine :=
  (head_exact_iff H11.Accepts.documented_plain [71, 69, 84] fine).2
    (.inr ⟨by decide, ⟨by decide, by decide⟩, by decide⟩)

/-- `Response(200, headers=[(b"x", b"a\r\ny: b")])`. -/
def reflected : AnyResponse := ⟨200, [([120], [97, 13, 10, 121, 58, 32, 98])], []⟩

/-- The value of one header ends its line: httptools writes two headers, h11 refuses the
response. -/
theorem split_by_value :
    (Httptools.startHead [71, 69, 84] reflected).bind ResponseHead.parse =
        some (⟨200, [79, 75], [([120], [97]), ([121], [98]), (transferEncodingName, chunkedValue)]⟩,
          []) ∧
      H11.Accepts.plain (reflected.toSend [71, 69, 84]) = false ∧
      ¬ ReadsBack [71, 69, 84] reflected ∧
      ¬ SameVerdict H11.Accepts.plain [71, 69, 84] reflected := by
  refine ⟨by decide, by decide, fun h => ?_, by decide⟩
  rcases (readsBack_iff _ _).1 h with hlong | ⟨-, hlegal⟩
  · have hshort : strInt reflected.statusCode = some [50, 48, 48] := by decide
    rw [hshort] at hlong
    cases hlong
  · exact absurd (hlegal.headers _ List.mem_cons_self).2 (by decide)

/-! ## WSGI -/

/-- The `start_response` of `wrap_wsgi`, without `exc_info`: the response it keeps, `none` when it
raises. `int` is Python's, of a text. -/
def wsgiStartResponse (int : Str → Option Int) (status : Str) (headers : List (Str × Str)) :
    Option AnyResponse :=
  (wireHead int status headers).map fun head => ⟨head.1, head.2.1, head.2.2⟩

/-- A WSGI application can supply every response whose status it can write. -/
theorem wsgi_supplies {int : Str → Option Int} (r : AnyResponse) (code : Str)
    (hblank : ' ' ∉ code) (hint : int code = some r.statusCode) :
    wsgiStartResponse int (code ++ ' ' :: decodeLatin1 r.reason)
      (strHeaders r.headers) = some r := by
  rw [wsgiStartResponse, wireHead_strHeaders hblank hint (encodeLatin1_decodeLatin1 r.reason)]
  rfl

end LocalPost.Http.Writer
