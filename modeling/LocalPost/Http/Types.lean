import LocalPost.Core.Ascii
import Mathlib.Data.List.DropRight

/-!
# Bytes, headers and the neutral request

The byte-string operations both backends use on a request head, and `Request`. `int` is Python's
conversion of a byte string to an integer.
-/

set_option autoImplicit false

namespace LocalPost.Http

open LocalPost.Core

abbrev Bytes := List UInt8

namespace Bytes

/-- `bytes.lower()`: ASCII letters only. -/
def lower (b : Bytes) : Bytes := b.map fun x => if 65 ≤ x ∧ x ≤ 90 then x + 32 else x

/-- `bytes.upper()`: ASCII letters only. -/
def upper (b : Bytes) : Bytes := b.map fun x => if 97 ≤ x ∧ x ≤ 122 then x - 32 else x

/-- `value.rstrip(b" \t")`. -/
def rstripOws (b : Bytes) : Bytes := b.rdropWhile fun x => x = 32 ∨ x = 9

/-- ASCII whitespace. -/
def isSpace (x : UInt8) : Bool := x = 32 ∨ 9 ≤ x ∧ x ≤ 13

/-- Decimal digits with single underscores between them; `after` says whether a digit came just
before. -/
def digits : Bytes → Bool → Nat → Option Nat
  | [], after, acc => if after then some acc else none
  | x :: rest, after, acc =>
    if x = 95 then if after then digits rest false acc else none
    else if Ascii.isDigit x then digits rest true (acc * 10 + (x - 48).toNat)
    else none

/-- `bytes.strip()`. -/
def strip (b : Bytes) : Bytes := (b.dropWhile isSpace).rdropWhile isSpace

/-- `int(value)`: blanks around it are dropped, a sign may come first. -/
def int (b : Bytes) : Option Int :=
  match b.strip with
  | 43 :: rest => (digits rest false 0).map fun n => (n : Int)
  | 45 :: rest => (digits rest false 0).map fun n => -(n : Int)
  | rest => (digits rest false 0).map fun n => (n : Int)

/-- `b"content-length"`. -/
def contentLengthName : Bytes :=
  [99, 111, 110, 116, 101, 110, 116, 45, 108, 101, 110, 103, 116, 104]

/-- `b"content-type"`. -/
def contentTypeName : Bytes := [99, 111, 110, 116, 101, 110, 116, 45, 116, 121, 112, 101]

/-- `b"cache-control"`. -/
def cacheControlName : Bytes := [99, 97, 99, 104, 101, 45, 99, 111, 110, 116, 114, 111, 108]

/-- `b"text/plain; charset=utf-8"`. -/
def plainText : Bytes :=
  [116, 101, 120, 116, 47, 112, 108, 97, 105, 110, 59, 32, 99, 104, 97, 114, 115, 101, 116,
  61, 117, 116, 102, 45, 56]

/-- `b"application/octet-stream"`. -/
def octetStream : Bytes :=
  [97, 112, 112, 108, 105, 99, 97, 116, 105, 111, 110, 47, 111, 99, 116, 101, 116, 45, 115,
  116, 114, 101, 97, 109]

/-- `b"expect"`. -/
def expectName : Bytes := [101, 120, 112, 101, 99, 116]

/-- `b"100-continue"`. -/
def continueValue : Bytes := [49, 48, 48, 45, 99, 111, 110, 116, 105, 110, 117, 101]

end Bytes

/-- `Request`. -/
structure Request where
  method : Bytes
  target : Bytes
  path : Bytes
  queryString : Bytes
  headers : List (Bytes × Bytes)
  httpVersion : Bytes
  deriving DecidableEq, Repr

/-- The request with the path and the query split at the first question mark. -/
def Request.ofTarget (method target : Bytes) (headers : List (Bytes × Bytes))
    (httpVersion : Bytes) : Request where
  method := method
  target := target
  path := target.takeWhile (· ≠ 63)
  queryString := (target.dropWhile (· ≠ 63)).drop 1
  headers := headers
  httpVersion := httpVersion

/-- `content_length`: the first such header decides. -/
def contentLength : List (Bytes × Bytes) → Option Int
  | [] => none
  | (name, value) :: rest =>
    if name = Bytes.contentLengthName then Bytes.int value else contentLength rest

example :
    contentLength [(Bytes.expectName, [49]), (Bytes.contentLengthName, [49, 50])] = some 12 := by
  decide

end LocalPost.Http
