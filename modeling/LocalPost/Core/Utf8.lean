import Mathlib.Data.List.Basic

/-!
# Text and UTF-8

A text of Python is a list of code points, surrogates among them. UTF-8 carries the scalar values
and no surrogate, so writing a text can fail; reading takes well-formed bytes only.
-/

set_option autoImplicit false

namespace LocalPost.Core.Utf8

/-- A code point. -/
inductive CodePoint where
  | scalar (c : Char)
  | surrogate (n : Fin 2048)
  deriving DecidableEq

/-- A text. -/
abbrev Text := List CodePoint

/-- The text of scalar values. -/
def ofChars (s : List Char) : Text := s.map .scalar

/-- A text without a surrogate. -/
def Scalars (s : Text) : Prop := ∃ cs, s = ofChars cs

/-- A text written as UTF-8. -/
def encode : Text → Option (List UInt8)
  | [] => some []
  | .surrogate _ :: _ => none
  | .scalar c :: s => (encode s).map fun bs => String.utf8EncodeChar c ++ bs

/-- Bytes read as UTF-8. -/
def decode (bs : List UInt8) : Option Text :=
  bs.toByteArray.utf8Decode?.map fun cs => ofChars cs.toList

theorem ofChars_append (a b : List Char) : ofChars (a ++ b) = ofChars a ++ ofChars b :=
  List.map_append

theorem mem_ofChars {cs : List Char} {c : Char} : .scalar c ∈ ofChars cs ↔ c ∈ cs := by
  rw [ofChars, List.mem_map]
  constructor
  · rintro ⟨d, hd, heq⟩
    cases heq
    exact hd
  · intro h
    exact ⟨c, h, rfl⟩

theorem scalars_ofChars (cs : List Char) : Scalars (ofChars cs) := ⟨cs, rfl⟩

theorem scalars_append {a b : Text} : Scalars (a ++ b) ↔ Scalars a ∧ Scalars b := by
  constructor
  · rintro ⟨cs, h⟩
    obtain ⟨as, bs, -, ha, hb⟩ := List.map_eq_append_iff.1 h.symm
    exact ⟨⟨as, ha.symm⟩, ⟨bs, hb.symm⟩⟩
  · rintro ⟨⟨as, rfl⟩, ⟨bs, rfl⟩⟩
    exact ⟨as ++ bs, (ofChars_append as bs).symm⟩

theorem encode_ofChars (cs : List Char) :
    encode (ofChars cs) = some (cs.flatMap String.utf8EncodeChar) := by
  induction cs with
  | nil => rfl
  | cons c cs ih =>
    change (encode (ofChars cs)).map _ = _
    rw [ih]
    rfl

/-- A text with a surrogate is not written. -/
theorem scalars_of_encode {s : Text} {bs : List UInt8} (h : encode s = some bs) : Scalars s := by
  induction s generalizing bs with
  | nil => exact ⟨[], rfl⟩
  | cons p s ih =>
    cases p with
    | surrogate n => cases h
    | scalar c =>
      obtain ⟨rest, hrest, -⟩ := Option.map_eq_some_iff.1 h
      obtain ⟨cs, rfl⟩ := ih hrest
      exact ⟨c :: cs, rfl⟩

/-- What is written reads back as the text. -/
theorem decode_of_encode {s : Text} {bs : List UInt8} (h : encode s = some bs) :
    decode bs = some s := by
  obtain ⟨cs, rfl⟩ := scalars_of_encode h
  rw [encode_ofChars, Option.some.injEq] at h
  have hbytes : bs.toByteArray = cs.utf8Encode := by
    rw [← h]
    rfl
  rw [decode, hbytes, List.utf8Decode?_utf8Encode]
  rfl

/-- What is read is written as the bytes it was read from. -/
theorem encode_of_decode {s : Text} {bs : List UInt8} (h : decode bs = some s) :
    encode s = some bs := by
  obtain ⟨cs, hcs, rfl⟩ := Option.map_eq_some_iff.1 h
  obtain ⟨l, hl⟩ := ByteArray.isSome_utf8Decode?_iff.1 (Option.isSome_iff_exists.2 ⟨cs, hcs⟩)
  rw [hl, List.utf8Decode?_utf8Encode, Option.some.injEq] at hcs
  have hbytes := congrArg (fun b => b.data.toList) hl
  rw [encode_ofChars, ← hcs]
  simpa [List.utf8Encode, eq_comm] using hbytes

theorem encode_append {a b : Text} {as bs : List UInt8} (ha : encode a = some as)
    (hb : encode b = some bs) : encode (a ++ b) = some (as ++ bs) := by
  obtain ⟨cs, rfl⟩ := scalars_of_encode ha
  obtain ⟨ds, rfl⟩ := scalars_of_encode hb
  rw [encode_ofChars, Option.some.injEq] at ha hb
  rw [← ofChars_append, encode_ofChars, List.flatMap_append, ha, hb]

end LocalPost.Core.Utf8
