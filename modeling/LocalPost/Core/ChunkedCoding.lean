import LocalPost.Core.Ascii
import Mathlib.Data.Nat.Digits.Defs

/-!
# The chunked transfer coding

A chunk is its length in hexadecimal digits, the data and two line ends; a chunk of length zero ends
the message. `decode` reads a whole message and accepts no trailers.
-/

set_option autoImplicit false

namespace LocalPost.Core.ChunkedCoding

open Ascii (crlf)

/-- The digit of a number below sixteen. -/
def hexDigit (d : Nat) : UInt8 := if d < 10 then UInt8.ofNat (48 + d) else UInt8.ofNat (87 + d)

/-- The number of a lower-case digit. -/
def hexNumber (x : UInt8) : Option Nat :=
  if 48 ≤ x ∧ x ≤ 57 then some (x.toNat - 48)
  else if 97 ≤ x ∧ x ≤ 102 then some (x.toNat - 87)
  else none

/-- `f"{n:x}"`. -/
def hexText (n : Nat) : List UInt8 :=
  if n = 0 then [48] else ((Nat.digits 16 n).map hexDigit).reverse

/-- The number that digits stand for, the highest first. -/
def ofHexText (s : List UInt8) : Option Nat :=
  s.foldlM (fun acc x => (hexNumber x).map fun d => acc * 16 + d) 0

/-- A chunk. -/
def frame (data : List UInt8) : List UInt8 := hexText data.length ++ crlf ++ data ++ crlf

/-- The end of the message. -/
def lastChunk : List UInt8 := [48] ++ crlf ++ crlf

/-- The rest behind a line end. -/
def afterCrlf : List UInt8 → Option (List UInt8)
  | 13 :: 10 :: rest => some rest
  | _ => none

/-- The data of the chunks, of at most `fuel` of them with the last. -/
def decodeChunks : Nat → List UInt8 → Option (List UInt8)
  | 0, _ => none
  | fuel + 1, s =>
    if s.takeWhile (· ≠ 13) = [] then none
    else
      (ofHexText (s.takeWhile (· ≠ 13))).bind fun n =>
        (afterCrlf (s.dropWhile (· ≠ 13))).bind fun rest =>
          if n = 0 then if rest = crlf then some [] else none
          else if rest.length < n then none
          else (afterCrlf (rest.drop n)).bind fun rest' =>
            (decodeChunks fuel rest').map fun data => rest.take n ++ data

/-- The data of a message. A chunk has at least one byte, so the fuel is enough. -/
def decode (s : List UInt8) : Option (List UInt8) := decodeChunks (s.length + 1) s

/-! ## Lengths -/

theorem hexNumber_hexDigit : ∀ d < 16, hexNumber (hexDigit d) = some d := by
  decide

theorem hexDigit_ne_cr : ∀ d < 16, hexDigit d ≠ 13 := by
  decide

theorem mem_hexText {n : Nat} {x : UInt8} (h : x ∈ hexText n) : ∃ d < 16, x = hexDigit d := by
  rw [hexText] at h
  split at h
  · exact ⟨0, by omega, List.mem_singleton.1 h⟩
  · obtain ⟨d, hd, rfl⟩ := List.mem_map.1 (List.mem_reverse.1 h)
    exact ⟨d, Nat.digits_lt_base (by omega) hd, rfl⟩

theorem hexText_ne_nil (n : Nat) : hexText n ≠ [] := by
  rw [hexText]
  split
  · exact List.cons_ne_nil _ _
  · rename_i hn
    rw [Ne, List.reverse_eq_nil_iff, List.map_eq_nil_iff]
    exact Nat.digits_ne_nil_iff_ne_zero.2 hn

/-- The digits come lowest first, the text has them the other way round. -/
theorem ofHexText_reverse {l : List Nat} (h : ∀ d ∈ l, d < 16) :
    ofHexText ((l.map hexDigit).reverse) = some (Nat.ofDigits 16 l) := by
  induction l with
  | nil => rfl
  | cons d l ih =>
    have hrest := ih fun d' hd' => h d' (List.mem_cons_of_mem _ hd')
    rw [ofHexText] at hrest
    rw [ofHexText, List.map_cons, List.reverse_cons, List.foldlM_append, hrest, Nat.ofDigits_cons]
    change (((hexNumber (hexDigit d)).map fun d' => Nat.ofDigits 16 l * 16 + d').bind some) = _
    rw [hexNumber_hexDigit d (h d List.mem_cons_self), Option.map_some, Option.bind_some]
    exact congrArg some (by rw [Nat.mul_comm, Nat.add_comm])

theorem ofHexText_hexText (n : Nat) : ofHexText (hexText n) = some n := by
  rw [hexText]
  split
  · rename_i hn
    rw [hn]
    decide
  · rw [ofHexText_reverse fun d hd => Nat.digits_lt_base (by omega) hd, Nat.ofDigits_digits]

/-! ## The round trip -/

/-- The digits of a length are what stands in front of the line end. -/
theorem takeWhile_hexText (n : Nat) (rest : List UInt8) :
    (hexText n ++ 13 :: rest).takeWhile (· ≠ 13) = hexText n ∧
    (hexText n ++ 13 :: rest).dropWhile (· ≠ 13) = 13 :: rest := by
  have hall : ∀ x ∈ hexText n, (decide (x ≠ 13)) = true := by
    intro x hx
    obtain ⟨d, hd, rfl⟩ := mem_hexText hx
    exact decide_eq_true (hexDigit_ne_cr d hd)
  constructor
  · rw [List.takeWhile_append_of_pos hall]
    simp
  · rw [List.dropWhile_append_of_pos hall]
    simp

theorem decodeChunks_lastChunk (fuel : Nat) : decodeChunks (fuel + 1) lastChunk = some [] := by
  rw [decodeChunks]
  rfl

/-- A frame is decoded to its data, and the decoder goes on behind it. -/
theorem decodeChunks_frame {data : List UInt8} (h : data ≠ []) (fuel : Nat) (rest : List UInt8) :
    decodeChunks (fuel + 1) (frame data ++ rest) =
      (decodeChunks fuel rest).map fun data' => data ++ data' := by
  have hlen : data.length ≠ 0 := fun hzero => h (List.length_eq_zero_iff.1 hzero)
  have hshape : frame data ++ rest = hexText data.length ++
      13 :: 10 :: (data ++ 13 :: 10 :: rest) := by
    simp [frame, crlf]
  obtain ⟨htake, hdrop⟩ := takeWhile_hexText data.length (10 :: (data ++ 13 :: 10 :: rest))
  rw [decodeChunks, hshape, htake, hdrop, if_neg (hexText_ne_nil _), ofHexText_hexText,
    Option.bind_some, afterCrlf, Option.bind_some, if_neg hlen, if_neg (by simp), List.drop_left,
    List.take_left, afterCrlf, Option.bind_some]

/-- Each chunk takes up at least one byte of the frames. -/
theorem length_le_flatMap_frame (chunks : List (List UInt8)) :
    chunks.length ≤ (chunks.flatMap frame).length := by
  induction chunks with
  | nil => exact Nat.le_refl 0
  | cons data chunks ih =>
    have hframe : 1 ≤ (frame data).length := by
      rw [frame, crlf, List.length_append]
      exact Nat.le_add_left 1 _
    rw [List.flatMap_cons, List.length_append, List.length_cons]
    omega

/-- Frames without an empty one among them, and the last chunk behind them, are decoded to the data
put together. -/
theorem decodeChunks_frames {chunks : List (List UInt8)} (h : ∀ data ∈ chunks, data ≠ [])
    {fuel : Nat} (hfuel : chunks.length ≤ fuel) :
    decodeChunks (fuel + 1) (chunks.flatMap frame ++ lastChunk) = some chunks.flatten := by
  induction chunks generalizing fuel with
  | nil => exact decodeChunks_lastChunk fuel
  | cons data chunks ih =>
    rw [List.length_cons] at hfuel
    obtain ⟨fuel, rfl⟩ : ∃ k, fuel = k + 1 := ⟨fuel - 1, by omega⟩
    rw [List.flatMap_cons, List.append_assoc, decodeChunks_frame (h data List.mem_cons_self),
      ih (fun data' hmem => h data' (List.mem_cons_of_mem _ hmem)) (by omega), List.flatten_cons,
      Option.map_some]

/-- A message of chunks that are not empty is read back. -/
theorem decode_frames {chunks : List (List UInt8)} (h : ∀ data ∈ chunks, data ≠ []) :
    decode (chunks.flatMap frame ++ lastChunk) = some chunks.flatten := by
  rw [decode]
  refine decodeChunks_frames h ?_
  rw [List.length_append]
  exact Nat.le_add_right_of_le (length_le_flatMap_frame chunks)

end LocalPost.Core.ChunkedCoding
