import Mathlib.Data.List.Basic

/-!
# Text and bytes

A text is the list of its characters. The two single-byte encodings: ISO-8859-1 takes every byte for
the character of the same number, ASCII only those below 128.
-/

set_option autoImplicit false

namespace LocalPost.Core

/-- A text. -/
abbrev Str := List Char

/-- The character of a byte. -/
def charOfByte (b : UInt8) : Char := Char.ofNat b.toNat

/-- The byte of a character. -/
def byteOfChar (c : Char) : Option UInt8 :=
  if c.toNat < 256 then some (UInt8.ofNat c.toNat) else none

/-- Bytes read as ISO-8859-1. -/
def decodeLatin1 (bs : List UInt8) : Str := bs.map charOfByte

/-- A text written as ISO-8859-1. -/
def encodeLatin1 (s : Str) : Option (List UInt8) := s.mapM byteOfChar

/-- `str.lower()` of ASCII letters. -/
def lowerText (s : Str) : Str := s.map Char.toLower

/-- Bytes read as ASCII. -/
def decodeAscii (bs : List UInt8) : Option Str :=
  if bs.all (fun b => b.toNat < 128) then some (decodeLatin1 bs) else none

/-- A text written as ASCII. -/
def encodeAscii (s : Str) : Option (List UInt8) :=
  if s.all (fun c => c.toNat < 128) then encodeLatin1 s else none

theorem toNat_charOfByte (b : UInt8) : (charOfByte b).toNat = b.toNat := by
  have hlt : b.toNat < 256 := UInt8.toNat_lt b
  have hvalid : b.toNat.isValidChar := .inl (by omega)
  rw [charOfByte, Char.ofNat, dif_pos hvalid]
  rfl

theorem byteOfChar_charOfByte (b : UInt8) : byteOfChar (charOfByte b) = some b := by
  rw [byteOfChar, toNat_charOfByte, if_pos (UInt8.toNat_lt b), UInt8.ofNat_toNat]

theorem charOfByte_injective : Function.Injective charOfByte := by
  intro a b h
  have hbyte := congrArg byteOfChar h
  rw [byteOfChar_charOfByte, byteOfChar_charOfByte] at hbyte
  exact Option.some.inj hbyte

theorem encodeLatin1_decodeLatin1 (bs : List UInt8) : encodeLatin1 (decodeLatin1 bs) = some bs := by
  induction bs with
  | nil => rfl
  | cons b bs ih =>
    rw [encodeLatin1] at ih
    rw [encodeLatin1, decodeLatin1, List.map_cons, List.mapM_cons, byteOfChar_charOfByte]
    change (List.mapM byteOfChar (decodeLatin1 bs)).bind _ = _
    rw [ih]
    rfl

theorem decodeLatin1_append (a b : List UInt8) :
    decodeLatin1 (a ++ b) = decodeLatin1 a ++ decodeLatin1 b := List.map_append

theorem decodeLatin1_injective : Function.Injective decodeLatin1 :=
  List.map_injective_iff.2 charOfByte_injective

theorem all_ascii_decodeLatin1 (bs : List UInt8) :
    (decodeLatin1 bs).all (fun c => c.toNat < 128) = bs.all fun b => b.toNat < 128 := by
  rw [decodeLatin1, List.all_map]
  congr 1
  funext b
  rw [Function.comp_apply, toNat_charOfByte]

theorem decodeAscii_eq_some_iff {bs : List UInt8} {s : Str} :
    decodeAscii bs = some s ↔ bs.all (fun b => b.toNat < 128) = true ∧ decodeLatin1 bs = s := by
  rw [decodeAscii]
  split
  · rename_i h
    rw [Option.some.injEq]
    exact ⟨fun heq => ⟨h, heq⟩, fun heq => heq.2⟩
  · rename_i h
    exact ⟨fun heq => (by cases heq), fun heq => absurd heq.1 h⟩

theorem encodeAscii_decodeLatin1 {bs : List UInt8} (h : bs.all (fun b => b.toNat < 128) = true) :
    encodeAscii (decodeLatin1 bs) = some bs := by
  rw [encodeAscii, all_ascii_decodeLatin1, h, if_pos rfl, encodeLatin1_decodeLatin1]

/-- What is written as ISO-8859-1 is read back. -/
theorem decodeLatin1_of_encodeLatin1 {s : Str} {bs : List UInt8} (h : encodeLatin1 s = some bs) :
    decodeLatin1 bs = s := by
  induction s generalizing bs with
  | nil =>
    cases h
    rfl
  | cons c s ih =>
    rw [encodeLatin1, List.mapM_cons] at h
    obtain ⟨b, hb, hrest⟩ := Option.bind_eq_some_iff.1 h
    obtain ⟨rest, hs, hcons⟩ := Option.bind_eq_some_iff.1 hrest
    cases hcons
    rw [byteOfChar] at hb
    split at hb
    · rename_i hlt
      cases hb
      have hchar : charOfByte (UInt8.ofNat c.toNat) = c := by
        rw [charOfByte, UInt8.toNat_ofNat', Nat.mod_eq_of_lt hlt, Char.ofNat_toNat]
      rw [decodeLatin1, List.map_cons, hchar]
      exact congrArg (c :: ·) (ih hs)
    · cases hb

/-- What is written as ASCII is read back. -/
theorem decodeLatin1_of_encodeAscii {s : Str} {bs : List UInt8} (h : encodeAscii s = some bs) :
    decodeLatin1 bs = s := by
  rw [encodeAscii] at h
  split at h
  · exact decodeLatin1_of_encodeLatin1 h
  · cases h

end LocalPost.Core
