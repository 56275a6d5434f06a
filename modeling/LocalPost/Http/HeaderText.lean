import LocalPost.Core.Text
import LocalPost.Http.Types

/-!
# Headers as text

The bridges hand headers to their servers as text, each byte a character (`_str_headers`,
`_wsgi_headers`), and take them so from WSGI applications. What is read as text is written back as
it was.
-/

set_option autoImplicit false

namespace LocalPost.Http

open LocalPost.Core

/-- `_str_headers`, and `_wsgi_headers`. -/
def strHeaders (headers : List (Bytes × Bytes)) : List (Str × Str) :=
  headers.map fun h => (decodeLatin1 h.1, decodeLatin1 h.2)

/-- `(name.encode("iso-8859-1"), value.encode("iso-8859-1"))` of every header. -/
def wireHeaders (headers : List (Str × Str)) : Option (List (Bytes × Bytes)) :=
  headers.mapM fun h => (encodeLatin1 h.1).bind fun name =>
    (encodeLatin1 h.2).map fun value => (name, value)

/-- Headers that were decoded for WSGI are encoded to what they were. -/
theorem wireHeaders_strHeaders (headers : List (Bytes × Bytes)) :
    wireHeaders (strHeaders headers) = some headers := by
  induction headers with
  | nil => rfl
  | cons header headers ih =>
    rw [wireHeaders, strHeaders] at ih
    rw [wireHeaders, strHeaders, List.map_cons, List.mapM_cons, encodeLatin1_decodeLatin1,
      encodeLatin1_decodeLatin1]
    change Option.bind (some header)
      (fun h => Option.bind (List.mapM _ (headers.map _)) fun hs => some (h :: hs)) = _
    rw [ih]
    rfl

section

variable {ν : Type} (int : Str → Option ν)

/-- What `start_response` makes of a status line and headers: the number that `int` reads in front
of the first blank, the headers, and the reason behind the blank. `none` when one of them raises. -/
def wireHead (status : Str) (headers : List (Str × Str)) :
    Option (ν × List (Bytes × Bytes) × Bytes) :=
  (int (status.takeWhile (· ≠ ' '))).bind fun statusCode =>
    (wireHeaders headers).bind fun wire =>
      (encodeLatin1 ((status.dropWhile (· ≠ ' ')).drop 1)).map fun reason =>
        (statusCode, wire, reason)

variable {int}

/-- A head that was written as text is read back. -/
theorem wireHead_strHeaders {code text : Str} {n : ν} {reason : Bytes} (hblank : ' ' ∉ code)
    (hint : int code = some n)
    (hreason : encodeLatin1 text = some reason) (headers : List (Bytes × Bytes)) :
    wireHead int (code ++ ' ' :: text) (strHeaders headers) = some (n, headers, reason) := by
  have hall : ∀ c ∈ code, decide (c ≠ ' ') = true :=
    fun c hc => decide_eq_true fun heq => hblank (heq ▸ hc)
  have hword : (code ++ ' ' :: text).takeWhile (· ≠ ' ') = code := by
    rw [List.takeWhile_append_of_pos hall, List.takeWhile_cons_of_neg (by decide), List.append_nil]
  have hrest : ((code ++ ' ' :: text).dropWhile (· ≠ ' ')).drop 1 = text := by
    rw [List.dropWhile_append_of_pos hall, List.dropWhile_cons_of_neg (by decide)]
    rfl
  rw [wireHead, hword, hint, wireHeaders_strHeaders, hrest, hreason]
  rfl

end

end LocalPost.Http
