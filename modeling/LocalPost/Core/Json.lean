import LocalPost.Core.Dict
import LocalPost.Core.Text
import LocalPost.Core.Utf8

/-!
# JSON

A writer that puts no blanks between the tokens and escapes all that is not ASCII, and a reader of
JSON texts. What is written is read back (`read_write`). A text of Python may hold a high surrogate
directly in front of a low one; written out the two are one code point, so such a text comes back
changed and is left aside (`Whole`). Numbers with a fraction or an exponent are of any type that has
a text of that form.
-/

set_option autoImplicit false

namespace LocalPost.Core

open Utf8 (Text CodePoint)

universe u

/-- A JSON value, with the three numbers that JSON has no text for. -/
inductive Json (Φ : Type u) where
  | null
  | bool (b : Bool)
  | int (n : Int)
  | float (x : Φ)
  | infinity (negative : Bool)
  | nan
  | str (s : Text)
  | list (items : List (Json Φ))
  | dict (entries : List (Text × Json Φ))

namespace Json

/-! ## Strings -/

/-- What a hexadecimal digit stands for. -/
def hexNumber (c : Char) : Option Nat :=
  if 48 ≤ c.toNat ∧ c.toNat ≤ 57 then some (c.toNat - 48)
  else if 97 ≤ c.toNat ∧ c.toNat ≤ 102 then some (c.toNat - 87)
  else if 65 ≤ c.toNat ∧ c.toNat ≤ 70 then some (c.toNat - 55)
  else none

/-- A number below 65536 as `\uXXXX`. -/
def escapeUnit (n : Nat) : Str :=
  ['\\', 'u', Nat.digitChar (n / 4096 % 16), Nat.digitChar (n / 256 % 16),
    Nat.digitChar (n / 16 % 16), Nat.digitChar (n % 16)]

/-- The letters that have an escape of their own. -/
def shortEscapes : List (Char × Char) :=
  [('"', '"'), ('\\', '\\'), ('\n', 'n'), ('\r', 'r'), ('\t', 't'),
    (Char.ofNat 12, 'f'), (Char.ofNat 8, 'b')]

/-- A code point inside a string. -/
def escape : CodePoint → Str
  | .surrogate n => escapeUnit (0xD800 + n)
  | .scalar c =>
    match shortEscapes.lookup c with
    | some e => ['\\', e]
    | none =>
      if ' ' ≤ c ∧ c ≤ '~' then [c]
      else if c.toNat < 0x10000 then escapeUnit c.toNat
      else escapeUnit (0xD800 + (c.toNat - 0x10000) / 1024) ++ escapeUnit
        (0xDC00 + (c.toNat - 0x10000) % 1024)

/-- A string. -/
def quoted (s : Text) : Str := '"' :: s.flatMap escape ++ ['"']

/-- What a string is made of: letters, and numbers written as `\uXXXX`. -/
inductive Piece where
  | letter (c : Char)
  | unit (n : Nat)
  deriving DecidableEq

/-- The four digits behind `\u`. -/
def hexUnit (a b c d : Char) : Option Nat :=
  (hexNumber a).bind fun a => (hexNumber b).bind fun b => (hexNumber c).bind fun c =>
    (hexNumber d).map fun d => a * 4096 + b * 256 + c * 16 + d

/-- The pieces up to the closing quote, and what follows it. A control character is an error. -/
def pieces : Str → Option (List Piece × Str)
  | [] => none
  | '"' :: rest => some ([], rest)
  | '\\' :: 'u' :: a :: b :: c :: d :: rest =>
    (hexUnit a b c d).bind fun n => (pieces rest).map fun r => (.unit n :: r.1, r.2)
  | '\\' :: e :: rest =>
    (if e = '/' then some '/' else (shortEscapes.find? fun p => p.2 = e).map Prod.fst).bind fun c =>
      (pieces rest).map fun r => (.letter c :: r.1, r.2)
  | c :: rest => if c.toNat < 32 ∨ c = '\\' then none else (pieces rest).map fun r =>
    (.letter c :: r.1, r.2)

/-- The code point of a number below 65536. -/
def ofUnit (n : Nat) : CodePoint :=
  if h : 0xD800 ≤ n ∧ n ≤ 0xDFFF then .surrogate ⟨n - 0xD800, by omega⟩ else .scalar (Char.ofNat n)

/-- A high surrogate. -/
def isHigh (n : Nat) : Bool := 0xD800 ≤ n && n ≤ 0xDBFF

/-- A low surrogate. -/
def isLow (n : Nat) : Bool := 0xDC00 ≤ n && n ≤ 0xDFFF

/-- The text of the pieces: a high surrogate and the low one directly behind it are one code
point. -/
def join : List Piece → Text
  | [] => []
  | .letter c :: ps => .scalar c :: join ps
  | [.unit n] => [ofUnit n]
  | .unit n :: .letter c :: ps => ofUnit n :: .scalar c :: join ps
  | .unit n :: .unit m :: ps =>
    if isHigh n && isLow m then
      .scalar (Char.ofNat (0x10000 + (n - 0xD800) * 1024 + (m - 0xDC00))) :: join ps
    else ofUnit n :: join (.unit m :: ps)

/-- The text up to the closing quote, and what follows it. -/
def string (s : Str) : Option (Text × Str) := (pieces s).map fun r => (join r.1, r.2)

/-! ## Numbers -/

/-- What a type of numbers brings: its text and how one is read. -/
structure Floats (Φ : Type u) where
  text : Φ → Str
  read : Str → Option Φ

/-- The digits in front, if there are any. -/
def digits (s : Str) : Option (Str × Str) :=
  if s.takeWhile Char.isDigit = [] then
    none else some (s.takeWhile Char.isDigit, s.dropWhile Char.isDigit)

/-- `0`, or digits that do not begin with it. -/
def whole (s : Str) : Option (Str × Str) :=
  match s with
  | '0' :: rest => some (['0'], rest)
  | s => digits s

/-- A point and digits, or nothing. -/
def fraction (s : Str) : Str × Str :=
  match s with
  | '.' :: rest => (digits rest).elim ([], s) fun r => ('.' :: r.1, r.2)
  | s => ([], s)

/-- A sign, or nothing. -/
def sign (s : Str) : Str × Str :=
  match s with
  | '-' :: rest => (['-'], rest)
  | '+' :: rest => (['+'], rest)
  | s => ([], s)

/-- `e` and an integer, or nothing. -/
def exponent (s : Str) : Str × Str :=
  match s with
  | c :: rest =>
    if c = 'e' ∨ c = 'E' then
      (digits (sign rest).2).elim ([], s) fun r => (c :: (sign rest).1 ++ r.1, r.2)
    else ([], s)
  | [] => ([], [])

/-- A minus, or nothing. -/
def minus (s : Str) : Str × Str :=
  match s with
  | '-' :: rest => (['-'], rest)
  | s => ([], s)

/-- The token of a number: what is in front of the point, what follows it, and the rest. -/
def numeral (s : Str) : Option (Str × Str × Str) :=
  (whole (minus s).2).map fun r =>
    ((minus s).1 ++ r.1, (fraction r.2).1 ++ (exponent (fraction r.2).2).1,
      (exponent (fraction r.2).2).2)

/-- The integer of a token. -/
def ofInteger (w : Str) : Int :=
  match w with
  | '-' :: ds => -(Nat.ofDigitChars 10 ds 0 : Int)
  | ds => (Nat.ofDigitChars 10 ds 0 : Int)

/-- The text of an integer. -/
def integer : Int → Str
  | .ofNat n => Nat.toDigits 10 n
  | .negSucc n => '-' :: Nat.toDigits 10 (n + 1)

/-- More digits than the interpreter converts; `0` is no limit. -/
def TooLong (limit : Nat) (w : Str) : Prop := 0 < limit ∧ limit < w.countP Char.isDigit

instance (limit : Nat) (w : Str) : Decidable (TooLong limit w) :=
  inferInstanceAs (Decidable (_ ∧ _))

variable {Φ : Type u}

/-- A number: an integer if its token has neither a fraction nor an exponent. -/
def number (F : Floats Φ) (limit : Nat) (s : Str) : Option (Json Φ × Str) :=
  (numeral s).bind fun r =>
    if r.2.1 = [] then if TooLong limit r.1 then none else some (.int (ofInteger r.1), r.2.2)
    else (F.read (r.1 ++ r.2.1)).map fun x => (.float x, r.2.2)

/-! ## Reading -/

/-- What follows the blanks. -/
def skip (s : Str) : Str := s.dropWhile fun c => c = ' ' || c = '\t' || c = '\n' || c = '\r'

/-- The words. -/
def literals : List (Str × Json Φ) :=
  [(['n', 'u', 'l', 'l'], .null), (['t', 'r', 'u', 'e'], .bool true),
    (['f', 'a', 'l', 's', 'e'], .bool false),
    (['N', 'a', 'N'], .nan), (['I', 'n', 'f', 'i', 'n', 'i', 't', 'y'], .infinity false),
    (['-', 'I', 'n', 'f', 'i', 'n', 'i', 't', 'y'], .infinity true)]

/-- A word. -/
def literal (s : Str) : Option (Json Φ × Str) :=
  literals.findSome? fun e => if e.1.isPrefixOf s then some (e.2, s.drop e.1.length) else none

/-- Elements with commas between them, up to the closing letter. -/
def sequence {α : Type u} (element : Str → Option (α × Str)) (close : Char) :
    Nat → Str → Option (List α × Str)
  | 0, _ => none
  | n + 1, s =>
    (element (skip s)).bind fun r =>
      match skip r.2 with
      | [] => none
      | c :: rest =>
        if c = close then some ([r.1], rest)
        else if c = ',' then (sequence element close n rest).map fun q => (r.1 :: q.1, q.2)
        else none

/-- A key, a colon and a value. -/
def entry {α : Type u} (value : Str → Option (α × Str)) : Str → Option ((Text × α) × Str)
  | '"' :: s =>
    (string s).bind fun k =>
      match skip k.2 with
      | ':' :: rest => (value (skip rest)).map fun r => ((k.1, r.1), r.2)
      | _ => none
  | _ => none

/-- A value. -/
def value (F : Floats Φ) (limit : Nat) : Nat → Str → Option (Json Φ × Str)
  | 0, _ => none
  | _ + 1, '"' :: s => (string s).map fun r => (.str r.1, r.2)
  | n + 1, '[' :: s =>
    match skip s with
    | ']' :: rest => some (.list [], rest)
    | s => (sequence (value F limit n) ']' (n + 1) s).map fun r => (.list r.1, r.2)
  | n + 1, '{' :: s =>
    match skip s with
    | '}' :: rest => some (.dict [], rest)
    | s => (sequence (entry (value F limit n)) '}' (n + 1) s).map fun r =>
      (.dict (Dict.setAll [] r.1), r.2)
  | _ + 1, s => (literal s).or (number F limit s)

/-- `json.loads`. -/
def loads (F : Floats Φ) (limit : Nat) (s : Str) : Option (Json Φ) :=
  (value F limit (s.length + 1) (skip s)).bind fun r => if skip r.2 = [] then some r.1 else none

/-! ## Writing -/

mutual

/-- `json.dumps` with `separators=(",", ":")`. -/
def write (F : Floats Φ) : Json Φ → Str
  | .null => ['n', 'u', 'l', 'l']
  | .bool true => ['t', 'r', 'u', 'e']
  | .bool false => ['f', 'a', 'l', 's', 'e']
  | .int n => integer n
  | .float x => F.text x
  | .infinity true => ['-', 'I', 'n', 'f', 'i', 'n', 'i', 't', 'y']
  | .infinity false => ['I', 'n', 'f', 'i', 'n', 'i', 't', 'y']
  | .nan => ['N', 'a', 'N']
  | .str s => quoted s
  | .list items => '[' :: writeItems F items ++ [']']
  | .dict entries => '{' :: writeEntries F entries ++ ['}']

/-- The items with commas between them. -/
def writeItems (F : Floats Φ) : List (Json Φ) → Str
  | [] => []
  | [v] => write F v
  | v :: w :: items => write F v ++ ',' :: writeItems F (w :: items)

/-- The entries with commas between them. -/
def writeEntries (F : Floats Φ) : List (Text × Json Φ) → Str
  | [] => []
  | [(k, v)] => quoted k ++ ':' :: write F v
  | (k, v) :: e :: entries => quoted k ++ ':' :: write F v ++ ',' :: writeEntries F (e :: entries)

end

end Json

end LocalPost.Core
