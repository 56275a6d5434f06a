import LocalPost.Core.Json
import Mathlib.Data.List.Chain
import Mathlib.Data.List.TakeWhile

/-!
# What is written in JSON is read back

`read_write`: the text of a value is read as that value, whatever follows it, for values whose texts
hold no surrogate pair in two pieces, whose keys are distinct and whose integers are not too long
(`Whole`). The strings are read in two steps, first their pieces and then the code points.
-/

set_option autoImplicit false

namespace LocalPost.Core.Json

open Utf8 (Text CodePoint)

universe u

/-! ## Strings -/

theorem hexNumber_digitChar : ∀ d < 16, hexNumber (Nat.digitChar d) = some d := by
  decide

theorem hexUnit_escapeUnit {n : Nat} (h : n < 65536) :
    hexUnit (Nat.digitChar (n / 4096 % 16)) (Nat.digitChar (n / 256 % 16))
      (Nat.digitChar (n / 16 % 16)) (Nat.digitChar (n % 16)) = some n := by
  have hsum : n / 4096 % 16 * 4096 + n / 256 % 16 * 256 + n / 16 % 16 * 16 + n % 16 = n := by omega
  rw [hexUnit, hexNumber_digitChar _ (Nat.mod_lt _ (by decide)), hexNumber_digitChar _
    (Nat.mod_lt _ (by decide)),
    hexNumber_digitChar _ (Nat.mod_lt _ (by decide)), hexNumber_digitChar _
      (Nat.mod_lt _ (by decide))]
  exact congrArg some hsum

/-- The pieces that a code point is written in. -/
def piecesOf : CodePoint → List Piece
  | .surrogate n => [.unit (0xD800 + n)]
  | .scalar c =>
    if (shortEscapes.lookup c).isSome ∨ ' ' ≤ c ∧ c ≤ '~' then [.letter c]
    else if c.toNat < 0x10000 then [.unit c.toNat]
    else [.unit (0xD800 + (c.toNat - 0x10000) / 1024), .unit (0xDC00 + (c.toNat - 0x10000) % 1024)]

theorem pieces_escapeUnit {n : Nat} (h : n < 65536) (rest : Str) :
    pieces (escapeUnit n ++ rest) = (pieces rest).map fun r => (.unit n :: r.1, r.2) := by
  change (hexUnit _ _ _ _).bind _ = _
  rw [hexUnit_escapeUnit h]
  rfl

/-- An escape of one letter is read as that letter. -/
theorem pieces_shortEscape {c e : Char} (h : shortEscapes.lookup c = some e) (rest : Str) :
    pieces ('\\' :: e :: rest) = (pieces rest).map fun r => (.letter c :: r.1, r.2) := by
  have hall : ∀ p ∈ shortEscapes, pieces ('\\' :: p.2 :: rest) =
      (pieces rest).map fun r => (.letter p.1 :: r.1, r.2) := by
    simp only [shortEscapes, List.forall_mem_cons]
    refine ⟨rfl, rfl, rfl, rfl, rfl, rfl, rfl, fun p hp => (by cases hp)⟩
  obtain ⟨before, behind, heq, -⟩ := List.lookup_eq_some_iff.1 h
  exact hall (c, e) (heq ▸ List.mem_append_right _ List.mem_cons_self)

/-- A character that needs no escape is a piece of its own. -/
theorem pieces_letter {c : Char} (h : shortEscapes.lookup c = none) (hle : ' ' ≤ c) (rest : Str) :
    pieces (c :: rest) = (pieces rest).map fun r => (.letter c :: r.1, r.2) := by
  have hquote : c ≠ '"' := by
    rintro rfl
    cases h
  have hslash : c ≠ '\\' := by
    rintro rfl
    cases h
  have hprintable : ¬(c.toNat < 32 ∨ c = '\\') := by
    rw [not_or]
    exact ⟨Nat.not_lt.2 hle, hslash⟩
  rw [pieces]
  · rw [if_neg hprintable]
  · exact hquote
  · exact fun _ _ _ _ _ heq => absurd heq hslash
  · exact fun _ _ heq => absurd heq hslash

/-- The escape of a code point is taken apart into the pieces of the code point, whatever follows.
-/
theorem pieces_escape (p : CodePoint) (rest : Str) :
    pieces (escape p ++ rest) = (pieces rest).map fun r => (piecesOf p ++ r.1, r.2) := by
  cases p with
  -- a lone surrogate has one `\u` escape
  | surrogate n =>
    have hn := n.isLt
    exact pieces_escapeUnit (by omega) rest
  | scalar c =>
    rw [escape, piecesOf]
    cases hlookup : shortEscapes.lookup c with
    | some e =>
      dsimp only [Option.isSome_some]
      rw [if_pos (Or.inl rfl)]
      exact pieces_shortEscape hlookup rest
    | none =>
      dsimp only [Option.isSome_none]
      -- a printable character stands for itself
      split
      · rename_i hprintable
        rw [if_pos (Or.inr hprintable)]
        exact pieces_letter hlookup hprintable.1 rest
      · rename_i hprintable
        have hnot : ¬(false = true ∨ ' ' ≤ c ∧ c ≤ '~') :=
          fun h => h.elim Bool.noConfusion hprintable
        rw [if_neg hnot]
        -- everything else is one UTF-16 unit, or two from `0x10000` on
        by_cases hsmall : c.toNat < 0x10000
        · rw [if_pos hsmall, if_pos hsmall]
          exact pieces_escapeUnit hsmall rest
        · rw [if_neg hsmall, if_neg hsmall]
          have hvalid : c.toNat < 0x110000 :=
            c.valid.elim (fun h => Nat.lt_trans h (by decide)) fun h => h.2
          rw [List.append_assoc, pieces_escapeUnit (by omega),
            pieces_escapeUnit (by omega), Option.map_map]
          rfl

/-- The pieces of a text are read up to the quote. -/
theorem pieces_flatMap (s : Text) (rest : Str) :
    pieces (s.flatMap escape ++ '"' :: rest) = some (s.flatMap piecesOf, rest) := by
  induction s with
  | nil => rfl
  | cons p s ih =>
    rw [List.flatMap_cons, List.append_assoc, pieces_escape, ih]
    rfl

/-- The two halves of a surrogate pair, one behind the other. -/
def Split : CodePoint → CodePoint → Prop
  | .surrogate n, .surrogate m => n.val < 1024 ∧ 1024 ≤ m.val
  | _, _ => False

instance : (a b : CodePoint) → Decidable (Split a b)
  | .surrogate n, .surrogate m => inferInstanceAs (Decidable (n.val < 1024 ∧ 1024 ≤ m.val))
  | .surrogate _, .scalar _ => isFalse id
  | .scalar _, .surrogate _ => isFalse id
  | .scalar _, .scalar _ => isFalse id

/-- A text without a surrogate pair in two halves. -/
def Joined (s : Text) : Prop := s.IsChain fun a b => ¬Split a b

instance (s : Text) : Decidable (Joined s) := inferInstanceAs (Decidable (List.IsChain _ s))

/-- A unit that begins no pair is a code point of its own. -/
theorem join_unit {n : Nat} {ps : List Piece}
    (h : isHigh n = true → ∀ m qs, ps = .unit m :: qs → isLow m = false) :
    join (.unit n :: ps) = ofUnit n :: join ps := by
  cases ps with
  | nil => rfl
  | cons p ps =>
    cases p with
    | letter c => rfl
    | unit m =>
      have hpair : ¬(isHigh n && isLow m) = true := by
        intro hpair
        rw [Bool.and_eq_true] at hpair
        rw [h hpair.1 m ps rfl] at hpair
        cases hpair.2
      rw [join, if_neg hpair]

theorem ofUnit_surrogate (n : Fin 2048) : ofUnit (0xD800 + n) = .surrogate n := by
  have hn := n.isLt
  have hrange : 0xD800 ≤ 0xD800 + n.val ∧ 0xD800 + n.val ≤ 0xDFFF := by omega
  rw [ofUnit, dif_pos hrange]
  exact congrArg CodePoint.surrogate (Fin.ext (Nat.add_sub_cancel_left _ _))

theorem not_surrogate (c : Char) : ¬(0xD800 ≤ c.toNat ∧ c.toNat ≤ 0xDFFF) := by
  intro h
  rcases c.valid with hlow | ⟨hlow, -⟩
  · exact absurd hlow (Nat.not_lt.2 h.1)
  · exact absurd hlow (Nat.not_lt.2 h.2)

theorem ofUnit_scalar (c : Char) : ofUnit c.toNat = .scalar c := by
  rw [ofUnit, dif_neg (not_surrogate c), Char.ofNat_toNat]

/-- What the first piece of a text can be. -/
theorem flatMap_piecesOf_head {s : Text} {m : Nat} {qs : List Piece}
    (h : s.flatMap piecesOf = .unit m :: qs)
    (hlow : isLow m = true) : ∃ n s', s = .surrogate n :: s' ∧ 1024 ≤ n.val := by
  cases s with
  | nil => cases h
  | cons p s =>
    rw [isLow, Bool.and_eq_true, decide_eq_true_eq, decide_eq_true_eq] at hlow
    cases p with
    | surrogate n =>
      cases h
      exact ⟨n, s, rfl, by omega⟩
    | scalar c =>
      rw [List.flatMap_cons, piecesOf] at h
      split at h
      · cases h
      · split at h
        · cases h
          exact absurd ⟨Nat.le_trans (by decide) hlow.1, hlow.2⟩ (not_surrogate c)
        · cases h
          have hvalid : c.toNat < 0x110000 :=
            c.valid.elim (fun h => Nat.lt_trans h (by decide)) fun h => h.2
          omega

/-- The pieces of a text are put together again. -/
theorem join_flatMap {s : Text} (h : Joined s) : join (s.flatMap piecesOf) = s := by
  induction s with
  | nil => rfl
  | cons p s ih =>
    have hs : Joined s := List.IsChain.tail h
    rw [List.flatMap_cons]
    cases p with
    | surrogate n =>
      rw [piecesOf, List.singleton_append, join_unit, ofUnit_surrogate, ih hs]
      -- the next piece would have to be the other half
      intro hhigh m qs hqs
      rw [isHigh, Bool.and_eq_true, decide_eq_true_eq, decide_eq_true_eq] at hhigh
      cases hlow : isLow m with
      | false => rfl
      | true =>
        obtain ⟨n', s', rfl, hn'⟩ := flatMap_piecesOf_head hqs hlow
        have hsplit : ¬Split (.surrogate n) (.surrogate n') := (List.isChain_cons_cons.1 h).1
        exact absurd ⟨by omega, hn'⟩ hsplit
    | scalar c =>
      rw [piecesOf]
      split
      · change CodePoint.scalar c :: join (s.flatMap piecesOf) = _
        rw [ih hs]
      · split
        · rw [List.singleton_append, join_unit, ofUnit_scalar, ih hs]
          intro hhigh
          rw [isHigh, Bool.and_eq_true, decide_eq_true_eq, decide_eq_true_eq] at hhigh
          exact absurd ⟨hhigh.1, Nat.le_trans hhigh.2 (by decide)⟩ (not_surrogate c)
        · rename_i hbig
          have hvalid : c.toNat < 0x110000 :=
            c.valid.elim (fun h => Nat.lt_trans h (by decide)) fun h => h.2
          have hpair : (isHigh (0xD800 + (c.toNat - 0x10000) / 1024) &&
              isLow (0xDC00 + (c.toNat - 0x10000) % 1024)) = true := by
            simp only [isHigh, isLow, Bool.and_eq_true, decide_eq_true_eq]
            omega
          have hsum : 0x10000 + (0xD800 + (c.toNat - 0x10000) / 1024 - 0xD800) * 1024 +
              (0xDC00 + (c.toNat - 0x10000) % 1024 - 0xDC00) = c.toNat := by omega
          change join (.unit _ :: .unit _ :: s.flatMap piecesOf) = _
          rw [join, if_pos hpair, hsum, Char.ofNat_toNat, ih hs]

/-- A string is read back. -/
theorem string_quoted {s : Text} (h : Joined s) (rest : Str) :
    string (s.flatMap escape ++ '"' :: rest) = some (s, rest) := by
  rw [string, pieces_flatMap, Option.map_some, join_flatMap h]

/-! ## Numbers -/

/-- What may follow a value: nothing, a comma or a closing bracket. -/
def Stops (rest : Str) : Prop := ∀ c ∈ rest.head?, c = ',' ∨ c = ']' ∨ c = '}'

theorem stops_nil : Stops [] := fun _ h => nomatch h

theorem stops_cons {c : Char} (h : c = ',' ∨ c = ']' ∨ c = '}') (rest : Str) :
    Stops (c :: rest) := by
  intro d hd
  cases hd
  exact h

/-- No number goes on with a letter that stops it. -/
theorem Stops.ne {c : Char} {rest : Str} (h : Stops (c :: rest)) :
    c.isDigit = false ∧ c ≠ '0' ∧ c ≠ '.' ∧ c ≠ '+' ∧ c ≠ '-' ∧ ¬(c = 'e' ∨ c = 'E') := by
  rcases h c rfl with rfl | rfl | rfl <;> decide

section

variable {rest : Str} (h : Stops rest)
include h

/-- The digits in front are the same with a text behind them that begins with none. -/
theorem span_append (s : Str) :
    (s ++ rest).takeWhile Char.isDigit = s.takeWhile Char.isDigit ∧
      (s ++ rest).dropWhile Char.isDigit = s.dropWhile Char.isDigit ++ rest := by
  induction s with
  | nil =>
    cases rest with
    | nil => exact ⟨rfl, rfl⟩
    | cons c rest =>
      have hc : ¬c.isDigit = true := by rw [h.ne.1]; exact Bool.false_ne_true
      exact ⟨List.takeWhile_cons_of_neg hc, List.dropWhile_cons_of_neg hc⟩
  | cons c s ih =>
    by_cases hc : c.isDigit = true
    · rw [List.cons_append, List.takeWhile_cons_of_pos hc, List.takeWhile_cons_of_pos hc, ih.1,
        List.dropWhile_cons_of_pos hc, List.dropWhile_cons_of_pos hc]
      exact ⟨rfl, ih.2⟩
    · rw [List.cons_append, List.takeWhile_cons_of_neg hc, List.takeWhile_cons_of_neg hc,
        List.dropWhile_cons_of_neg hc, List.dropWhile_cons_of_neg hc]
      exact ⟨rfl, rfl⟩

theorem digits_append (s : Str) : digits (s ++ rest) = (digits s).map fun r =>
    (r.1, r.2 ++ rest) := by
  obtain ⟨htake, hdrop⟩ := span_append h s
  rw [digits, digits, htake, hdrop]
  split <;> rfl

/-- The whole part of a number is read the same with more text behind it. -/
theorem whole_append (s : Str) : whole (s ++ rest) = (whole s).map fun r => (r.1, r.2 ++ rest) := by
  have hother : ∀ t : Str, (∀ u, t ≠ '0' :: u) → whole t = digits t := by
    intro t ht
    rw [whole]
    exact fun u hu => ht u hu
  cases s with
  | nil =>
    have hrest : ∀ u, rest ≠ '0' :: u := by
      rintro u rfl
      exact h.ne.2.1 rfl
    rw [List.nil_append, hother rest hrest]
    exact digits_append h []
  | cons c s =>
    by_cases hc : c = '0'
    · rw [hc]
      rfl
    · have hcons : ∀ t u, c :: t ≠ '0' :: u := fun t u heq => hc (List.cons.inj heq).1
      rw [List.cons_append, hother _ (hcons _), hother _ (hcons _)]
      exact digits_append h (c :: s)

/-- The fraction is read the same with more text behind it. -/
theorem fraction_append (s : Str) :
    fraction (s ++ rest) = ((fraction s).1, (fraction s).2 ++ rest) := by
  have hother : ∀ t : Str, (∀ u, t ≠ '.' :: u) → fraction t = ([], t) := by
    intro t ht
    rw [fraction]
    exact fun u hu => ht u hu
  cases s with
  | nil =>
    have hrest : ∀ u, rest ≠ '.' :: u := by
      rintro u rfl
      exact h.ne.2.2.1 rfl
    exact hother rest hrest
  | cons c s =>
    by_cases hc : c = '.'
    · rw [hc, List.cons_append, fraction, fraction, digits_append h]
      cases digits s <;> rfl
    · have hcons : ∀ t u, c :: t ≠ '.' :: u := fun t u heq => hc (List.cons.inj heq).1
      rw [List.cons_append, hother _ (hcons _), hother _ (hcons _)]
      rfl

/-- The sign of an exponent is read the same with more text behind it. -/
theorem sign_append (s : Str) : sign (s ++ rest) = ((sign s).1, (sign s).2 ++ rest) := by
  -- only the two signs are taken off the front
  have hother : ∀ t : Str, (∀ u, t ≠ '-' :: u) → (∀ u, t ≠ '+' :: u) → sign t = ([], t) := by
    intro t hminus hplus
    rw [sign]
    · exact fun u hu => hminus u hu
    · exact fun u hu => hplus u hu
  -- an empty literal: the sign is read from `rest`, which does not start with one
  cases s with
  | nil =>
    refine hother rest ?_ ?_
    · rintro u rfl
      exact h.ne.2.2.2.2.1 rfl
    · rintro u rfl
      exact h.ne.2.2.2.1 rfl
  | cons c s =>
    by_cases hminus : c = '-'
    · rw [hminus]
      rfl
    · by_cases hplus : c = '+'
      · rw [hplus]
        rfl
      · have hcons : ∀ d, c ≠ d → ∀ t u, c :: t ≠ d :: u := fun d hd t u heq =>
          hd (List.cons.inj heq).1
        rw [List.cons_append, hother _ (hcons _ hminus _) (hcons _ hplus _),
          hother _ (hcons _ hminus _) (hcons _ hplus _)]
        rfl

/-- The exponent is read the same with more text behind it. -/
theorem exponent_append (s : Str) :
    exponent (s ++ rest) = ((exponent s).1, (exponent s).2 ++ rest) := by
  cases s with
  | nil =>
    cases rest with
    | nil => rfl
    | cons c rest =>
      have hc := h.ne.2.2.2.2.2
      exact if_neg hc
  | cons c s =>
    rw [List.cons_append, exponent, exponent]
    by_cases hc : c = 'e' ∨ c = 'E'
    · rw [if_pos hc, if_pos hc, sign_append h, digits_append h]
      cases digits (sign s).2 <;> rfl
    · rw [if_neg hc, if_neg hc]
      rfl

/-- The minus is read the same with more text behind it. -/
theorem minus_append (s : Str) : minus (s ++ rest) = ((minus s).1, (minus s).2 ++ rest) := by
  have hother : ∀ t : Str, (∀ u, t ≠ '-' :: u) → minus t = ([], t) := by
    intro t ht
    rw [minus]
    exact fun u hu => ht u hu
  cases s with
  | nil =>
    refine hother rest ?_
    rintro u rfl
    exact h.ne.2.2.2.2.1 rfl
  | cons c s =>
    by_cases hc : c = '-'
    · rw [hc]
      rfl
    · have hcons : ∀ t u, c :: t ≠ '-' :: u := fun t u heq => hc (List.cons.inj heq).1
      rw [List.cons_append, hother _ (hcons _), hother _ (hcons _)]
      rfl

/-- The token of a number does not depend on what follows it. -/
theorem numeral_append (s : Str) :
    numeral (s ++ rest) = (numeral s).map fun r => (r.1, r.2.1, r.2.2 ++ rest) := by
  rw [numeral, numeral, minus_append h, whole_append h, Option.map_map, Option.map_map]
  apply congrArg fun f => (whole (minus s).2).map f
  funext r
  simp only [Function.comp_apply, fraction_append h, exponent_append h]

end

theorem eq_of_digits {s : Str} {r : Str × Str} (h : digits s = some r) : s = r.1 ++ r.2 := by
  rw [digits] at h
  split at h
  · cases h
  · cases h
    exact List.takeWhile_append_dropWhile.symm

theorem eq_of_whole {s : Str} {r : Str × Str} (h : whole s = some r) : s = r.1 ++ r.2 := by
  rw [whole.eq_def] at h
  split at h
  · cases h
    rfl
  · exact eq_of_digits h

theorem fraction_eq (s : Str) : s = (fraction s).1 ++ (fraction s).2 := by
  rw [fraction.eq_def]
  split
  · rename_i rest
    cases hdigits : digits rest with
    | none => rfl
    | some r => exact congrArg ('.' :: ·) (eq_of_digits hdigits)
  · rfl

theorem sign_eq (s : Str) : s = (sign s).1 ++ (sign s).2 := by
  rw [sign.eq_def]
  split <;> rfl

/-- An exponent and the rest make up the text again. -/
theorem exponent_eq (s : Str) : s = (exponent s).1 ++ (exponent s).2 := by
  cases s with
  | nil => rfl
  | cons c s =>
    rw [exponent]
    split
    · cases hdigits : digits (sign s).2 with
      | none => rfl
      | some r =>
        change c :: s = c :: (sign s).1 ++ r.1 ++ r.2
        rw [List.cons_append, List.cons_append,
          List.append_assoc, ← eq_of_digits hdigits, ← sign_eq]
    · rfl

theorem minus_eq (s : Str) : s = (minus s).1 ++ (minus s).2 := by
  rw [minus.eq_def]
  split <;> rfl

/-- The token of a number and the rest are what was there. -/
theorem eq_of_numeral {s : Str} {r : Str × Str × Str} (h : numeral s = some r) :
    s = r.1 ++ r.2.1 ++ r.2.2 := by
  obtain ⟨q, hq, rfl⟩ := Option.map_eq_some_iff.1 h
  calc s = (minus s).1 ++ (minus s).2 := minus_eq s
    _ = (minus s).1 ++ (q.1 ++ q.2) := by rw [← eq_of_whole hq]
    _ = (minus s).1 ++ (q.1 ++ ((fraction q.2).1 ++ (fraction q.2).2)) := by rw [← fraction_eq]
    _ = (minus s).1 ++ (q.1 ++ ((fraction q.2).1 ++ ((exponent (fraction q.2).2).1 ++
        (exponent (fraction q.2).2).2))) := by rw [← exponent_eq]
    _ = _ := by simp only [List.append_assoc]

/-- A number begins with a digit, or with a minus and a digit. -/
theorem head_of_numeral {s : Str} (h : (numeral s).isSome = true) :
    ∃ d t, d.isDigit = true ∧ (s = d :: t ∨ s = '-' :: d :: t) := by
  rw [numeral, Option.isSome_map] at h
  obtain ⟨r, hr⟩ := Option.isSome_iff_exists.1 h
  -- without the sign a numeral starts with a digit: the zero alone, or a run of digits
  have hhead : ∀ u : Str, (whole u).isSome = true → ∃ d t, d.isDigit = true ∧ u = d :: t := by
    intro u hu
    rw [whole.eq_def] at hu
    split at hu
    · rename_i t
      exact ⟨'0', t, by decide, rfl⟩
    -- an empty run of digits is refused
    · cases u with
      | nil => cases hu
      | cons d t =>
        refine ⟨d, t, ?_, rfl⟩
        by_cases hd : d.isDigit = true
        · exact hd
        · rw [digits, List.takeWhile_cons_of_neg hd, if_pos rfl] at hu
          cases hu
  obtain ⟨d, t, hd, heq⟩ := hhead _ h
  refine ⟨d, t, hd, ?_⟩
  have hs := minus_eq s
  rw [heq] at hs
  rw [minus.eq_def] at hs
  split at hs
  · exact Or.inr hs
  · exact Or.inl hs

/-! ## Integers -/

theorem digitChar_ne_zero {d : Nat} (h : d < 10) (hd : d ≠ 0) : Nat.digitChar d ≠ '0' := by
  have hall : ∀ d < 10, d ≠ 0 → Nat.digitChar d ≠ '0' := by decide
  exact hall d h hd

/-- A number other than zero does not begin with it. -/
theorem toDigits_ne_zero {n : Nat} (h : 0 < n) (u : Str) : Nat.toDigits 10 n ≠ '0' :: u := by
  induction n using Nat.base_induction 10 (by decide) generalizing u with
  | single m hm =>
    rw [Nat.toDigits_of_lt_base hm]
    intro heq
    exact digitChar_ne_zero hm (Nat.ne_of_gt h) (List.cons.inj heq).1
  | digit m k hk hm ih =>
    rw [← Nat.toDigits_append_toDigits (by decide) hm hk]
    intro heq
    cases hdigits : Nat.toDigits 10 m with
    | nil => exact Nat.toDigits_ne_nil hdigits
    | cons c cs =>
      rw [hdigits] at heq
      exact ih hm cs (by rw [hdigits, (List.cons.inj heq).1])

/-- The digits of a number are a whole part, with nothing behind it. -/
theorem whole_toDigits (n : Nat) : whole (Nat.toDigits 10 n) = some (Nat.toDigits 10 n, []) := by
  cases Nat.eq_zero_or_pos n with
  | inl hzero =>
    rw [hzero]
    rfl
  | inr hpos =>
    have hall : ∀ c ∈ Nat.toDigits 10 n, c.isDigit = true :=
      fun c hc => Nat.isDigit_of_mem_toDigits (by decide) (by decide) hc
    have htake : (Nat.toDigits 10 n).takeWhile Char.isDigit = Nat.toDigits 10 n :=
      List.takeWhile_eq_self_iff.2 hall
    have hdrop : (Nat.toDigits 10 n).dropWhile Char.isDigit = [] := List.dropWhile_eq_nil_iff.2 hall
    rw [whole]
    · rw [digits, htake, hdrop, if_neg Nat.toDigits_ne_nil]
    · exact fun u hu => toDigits_ne_zero hpos u hu

theorem minus_toDigits (n : Nat) : minus (Nat.toDigits 10 n) = ([], Nat.toDigits 10 n) := by
  rw [minus]
  intro u hu
  have hdigit : '-'.isDigit = true :=
    Nat.isDigit_of_mem_toDigits (by decide) (by decide)
      (hu ▸ List.mem_cons_self : '-' ∈ Nat.toDigits 10 n)
  exact absurd hdigit (by decide)

/-- The text of an integer is a token without fraction and exponent. -/
theorem numeral_integer (n : Int) : numeral (integer n) = some (integer n, [], []) := by
  cases n with
  | ofNat n =>
    rw [integer, numeral, minus_toDigits, whole_toDigits]
    rfl
  | negSucc n =>
    have hminus : minus ('-' :: Nat.toDigits 10 (n + 1)) = (['-'], Nat.toDigits 10 (n + 1)) := rfl
    rw [integer, numeral, hminus, whole_toDigits]
    rfl

/-- The text of an integer is read as that integer. -/
theorem ofInteger_integer (n : Int) : ofInteger (integer n) = n := by
  cases n with
  | ofNat n =>
    rw [integer, ofInteger, Nat.ofDigitChars_ten_toDigits]
    · rfl
    · intro u hu
      have hdigit : '-'.isDigit = true :=
        Nat.isDigit_of_mem_toDigits (by decide) (by decide)
          (hu ▸ List.mem_cons_self : '-' ∈ Nat.toDigits 10 n)
      exact absurd hdigit (by decide)
  | negSucc n =>
    rw [integer, ofInteger, Nat.ofDigitChars_ten_toDigits]
    rfl

/-! ## Values -/

variable {Φ : Type u} {F : Floats Φ} {limit : Nat}

/-- The text of a number is a token with a fraction or an exponent, and it is read as that
number. -/
structure Floats.Documented (F : Floats Φ) : Prop where
  token : ∀ x, ∃ w e, e ≠ [] ∧ numeral (F.text x) = some (w, e, [])
  read_text : ∀ x, F.read (F.text x) = some x

/-- A value that its text carries. -/
inductive Whole (limit : Nat) : Json Φ → Prop where
  | null : Whole limit .null
  | bool (b : Bool) : Whole limit (.bool b)
  | int {n : Int} (h : ¬TooLong limit (integer n)) : Whole limit (.int n)
  | float (x : Φ) : Whole limit (.float x)
  | infinity (negative : Bool) : Whole limit (.infinity negative)
  | nan : Whole limit .nan
  | str {s : Text} (h : Joined s) : Whole limit (.str s)
  | list {items : List (Json Φ)} (h : ∀ v ∈ items, Whole limit v) : Whole limit (.list items)
  | dict {entries : List (Text × Json Φ)} (hnodup : (Dict.keys entries).Nodup)
      (hkeys : ∀ e ∈ entries, Joined e.1) (h : ∀ e ∈ entries, Whole limit e.2) :
        Whole limit (.dict entries)

theorem isDigit_ne {d c : Char} (h : d.isDigit = true) (hc : c.isDigit = false) : d ≠ c := by
  rintro rfl
  rw [hc] at h
  cases h

/-- No word begins like a number. -/
theorem literal_number {d : Char} (h : d.isDigit = true) (t : Str) :
    (literal (d :: t) : Option (Json Φ × Str)) = none ∧
      (literal ('-' :: d :: t) : Option (Json Φ × Str)) = none := by
  have hhead : ∀ {c : Char} {w u : Str}, c.isDigit = false →
      (c :: w).isPrefixOf (d :: u) = false := by
    intro c w u hc
    rw [List.isPrefixOf, beq_eq_false_iff_ne.2 (isDigit_ne h hc).symm, Bool.false_and]
  have hminus : ∀ {c : Char} {w u : Str}, c ≠ '-' → (c :: w).isPrefixOf ('-' :: u) = false := by
    intro c w u hc
    rw [List.isPrefixOf, beq_eq_false_iff_ne.2 hc, Bool.false_and]
  have hinfinity : ∀ w : Str, ('-' :: 'I' :: w).isPrefixOf ('-' :: d :: t) = false := by
    intro w
    rw [List.isPrefixOf, hhead (by decide), Bool.and_false]
  constructor
  · rw [literal, List.findSome?_eq_none_iff]
    simp only [literals, List.forall_mem_cons]
    refine ⟨?_, ?_, ?_, ?_, ?_, ?_, fun e he => nomatch he⟩ <;>
      exact if_neg (by rw [Bool.not_eq_true]; exact hhead (by decide))
  · rw [literal, List.findSome?_eq_none_iff]
    simp only [literals, List.forall_mem_cons]
    refine ⟨?_, ?_, ?_, ?_, ?_, if_neg (by rw [hinfinity _]; exact Bool.false_ne_true), fun e he =>
      nomatch he⟩ <;> exact if_neg (by rw [Bool.not_eq_true]; exact hminus (by decide))

/-- What begins like a number is read as one. -/
theorem value_of_numeral {s : Str} (h : (numeral s).isSome = true) (n : Nat) :
    value F limit (n + 1) s = number F limit s := by
  obtain ⟨d, t, hd, hs⟩ := head_of_numeral h
  have hother : ∀ u : Str, (∀ v, u ≠ '"' :: v) → (∀ v, u ≠ '[' :: v) → (∀ v, u ≠ '\x7b' :: v) →
      value F limit (n + 1) u = (literal u).or (number F limit u) := by
    intro u hquote hbracket hbrace
    rw [value]
    · exact hquote
    · exact hbracket
    · exact hbrace
  rcases hs with rfl | rfl
  · have hne : ∀ {c : Char}, c.isDigit = false → ∀ v, d :: t ≠ c :: v :=
      fun hc v heq => isDigit_ne hd hc (List.cons.inj heq).1
    rw [hother _ (hne (by decide)) (hne (by decide)) (hne (by decide)),
      (literal_number hd t).1, Option.none_or]
  · have hne : ∀ {c : Char}, '-' ≠ c → ∀ v, '-' :: d :: t ≠ c :: v := fun hc v heq =>
      hc (List.cons.inj heq).1
    rw [hother _ (hne (by decide)) (hne (by decide)) (hne (by decide)),
      (literal_number hd t).2, Option.none_or]

theorem number_integer {n : Int} (h : ¬TooLong limit (integer n)) {rest : Str}
    (hrest : Stops rest) : number F limit (integer n ++ rest) = some (.int n, rest) := by
  rw [number, numeral_append hrest, numeral_integer, Option.map_some, Option.bind_some]
  dsimp only
  rw [if_pos rfl, if_neg h, ofInteger_integer, List.nil_append]

theorem number_float (hF : F.Documented) (x : Φ) {rest : Str} (hrest : Stops rest) :
    number F limit (F.text x ++ rest) = some (.float x, rest) := by
  obtain ⟨w, e, he, htoken⟩ := hF.token x
  have htext : w ++ e = F.text x := by
    rw [eq_of_numeral htoken, List.append_nil]
  rw [number, numeral_append hrest, htoken]
  change (if e = [] then _ else (F.read (w ++ e)).map _) = _
  rw [if_neg he, htext, hF.read_text]
  rfl

/-! ## Sequences -/

/-- Texts with commas between them. -/
def commas : List Str → Str
  | [] => []
  | [s] => s
  | s :: t :: ss => s ++ ',' :: commas (t :: ss)

theorem writeItems_eq (items : List (Json Φ)) :
    writeItems F items = commas (items.map (write F)) := by
  induction items with
  | nil => rfl
  | cons v items ih =>
    cases items with
    | nil => rfl
    | cons w items =>
      rw [writeItems, ih]
      rfl

/-- One entry. -/
def writeEntry (F : Floats Φ) (e : Text × Json Φ) : Str := quoted e.1 ++ ':' :: write F e.2

/-- The entries are written one by one, with commas in between. -/
theorem writeEntries_eq (entries : List (Text × Json Φ)) :
    writeEntries F entries = commas (entries.map (writeEntry F)) := by
  induction entries with
  | nil => rfl
  | cons e entries ih =>
    cases entries with
    | nil => rfl
    | cons e' entries =>
      rw [writeEntries, ih]
      rfl

/-- Each part is at most as long as the parts with commas. -/
theorem length_le_commas {t : Str} {ss : List Str} (h : t ∈ ss) :
    t.length ≤ (commas ss).length := by
  induction ss with
  | nil => cases h
  | cons s ss ih =>
    cases ss with
    | nil =>
      rw [List.mem_singleton.1 h]
      exact Nat.le_refl _
    | cons s' ss =>
      rw [commas, List.length_append, List.length_cons]
      rcases List.mem_cons.1 h with rfl | h
      · omega
      · have hrest := ih h
        omega

/-- There are at most as many parts as characters, if none of them is empty. -/
theorem length_le_commas_of_ne_nil (ss : List Str) (h : ∀ s ∈ ss, s ≠ []) :
    ss.length ≤ (commas ss).length := by
  induction ss with
  | nil => exact Nat.le_refl _
  | cons s ss ih =>
    have hpos := List.length_pos_iff.2 (h s List.mem_cons_self)
    have hrest := ih fun t ht => h t (List.mem_cons_of_mem _ ht)
    cases ss with
    | nil => exact hpos
    | cons s' ss =>
      rw [commas, List.length_append]
      simp only [List.length_cons] at hrest ⊢
      omega

/-- A blank. -/
def IsBlank (c : Char) : Prop := c = ' ' ∨ c = '\t' ∨ c = '\n' ∨ c = '\r'

instance (c : Char) : Decidable (IsBlank c) := inferInstanceAs (Decidable (_ ∨ _))

theorem skip_cons {c : Char} (h : ¬IsBlank c) (s : Str) : skip (c :: s) = c :: s := by
  rw [skip, List.dropWhile_cons_of_neg]
  simpa [IsBlank, not_or, and_assoc] using h

/-- Where a text begins with a letter, nothing is skipped. -/
theorem skip_of_head {t : Str} (h : ∃ c u, t = c :: u ∧ ¬IsBlank c) (rest : Str) :
    skip (t ++ rest) = t ++ rest := by
  obtain ⟨c, u, rfl, hc⟩ := h
  exact skip_cons hc (u ++ rest)

/-- Elements that are read back one by one are read back as a sequence. -/
theorem sequence_commas {α : Type u} {element : Str → Option (α × Str)} {text : α → Str}
    {close : Char} (hclose : close = ']' ∨ close = '}') {as : List α} (hne : as ≠ [])
    (hhead : ∀ a ∈ as, ∃ c u, text a = c :: u ∧ ¬IsBlank c)
    (h : ∀ a ∈ as, ∀ rest, Stops rest → element (text a ++ rest) = some (a, rest)) {n : Nat}
    (hn : as.length ≤ n) (rest : Str) :
    sequence element close n (commas (as.map text) ++ close :: rest) = some (as, rest) := by
  have hblank : ¬IsBlank close := by
    rcases hclose with rfl | rfl <;> decide
  have hcomma : close ≠ ',' := by
    rcases hclose with rfl | rfl <;> decide
  induction as generalizing n with
  | nil => exact absurd rfl hne
  | cons a as ih =>
    cases n with
    | zero => cases hn
    | succ n =>
      have ha := List.mem_cons_self (a := a) (l := as)
      cases as with
      -- behind the last element stands the closing bracket, which is no comma
      | nil =>
        have helement := h a ha (close :: rest) (stops_cons (Or.inr hclose) rest)
        change (element (skip (text a ++ close :: rest))).bind _ = _
        rw [skip_of_head (hhead a ha), helement]
        rw [Option.bind_some]
        dsimp only
        rw [skip_cons hblank]
        exact if_pos rfl
      -- behind another one a comma, and the rest is the sequence of the others
      | cons b as =>
        have hrest :=
          ih (List.cons_ne_nil b as) (fun a' ha' => hhead a' (List.mem_cons_of_mem _ ha'))
          (fun a' ha' => h a' (List.mem_cons_of_mem _ ha')) (Nat.le_of_succ_le_succ hn)
        have helement := h a ha (',' :: (commas ((b :: as).map text) ++ close :: rest))
          (stops_cons (Or.inl rfl) _)
        have htext : commas ((a :: b :: as).map text) ++ close :: rest =
            text a ++ ',' :: (commas ((b :: as).map text) ++ close :: rest) := by
          change text a ++ ',' :: commas ((b :: as).map text) ++ close :: rest = _
          rw [List.append_assoc, List.cons_append]
        rw [htext]
        change (element (skip (text a ++ _))).bind _ = _
        rw [skip_of_head (hhead a ha), helement]
        rw [Option.bind_some]
        dsimp only
        rw [skip_cons (by decide)]
        dsimp only
        rw [if_neg hcomma.symm, if_pos rfl, hrest]
        rfl

/-- So is the sequence behind an opening bracket, where no closing bracket follows. -/
theorem sequence_written {α : Type u} {element : Str → Option (α × Str)} {text : α → Str}
    {close : Char} (hclose : close = ']' ∨ close = '\x7d') {as : List α} (hne : as ≠ [])
    (hhead : ∀ a ∈ as, ∃ c u, text a = c :: u ∧ ¬IsBlank c ∧ c ≠ close)
    (h : ∀ a ∈ as, (text a).length ≤ (commas (as.map text)).length →
      ∀ rest, Stops rest → element (text a ++ rest) = some (a, rest)) {n : Nat}
    (hn : (commas (as.map text)).length ≤ n) (rest : Str) :
    ∃ c t, commas (as.map text) ++ close :: rest = c :: t ∧ ¬IsBlank c ∧ c ≠ close ∧
      sequence element close n (c :: t) = some (as, rest) := by
  have hcount : as.length ≤ n := by
    have hle := length_le_commas_of_ne_nil (as.map text) fun t ht => by
      obtain ⟨a, ha, rfl⟩ := List.mem_map.1 ht
      obtain ⟨c, u, heq, -⟩ := hhead a ha
      rw [heq]
      exact List.cons_ne_nil c u
    rw [List.length_map] at hle
    exact Nat.le_trans hle hn
  -- the elements are no longer than their sequence, so there are at most `n`
  have hsequence := sequence_commas hclose hne
    (fun a ha => (hhead a ha).imp fun c => fun ⟨u, heq, hblank, _⟩ => ⟨u, heq, hblank⟩)
    (fun a ha => h a ha (length_le_commas (List.mem_map_of_mem ha))) hcount rest
  -- the first character of the sequence is the one of its first element
  cases as with
  | nil => exact absurd rfl hne
  | cons a as =>
    obtain ⟨c, u, heq, hblank, hother⟩ := hhead a List.mem_cons_self
    obtain ⟨t, ht⟩ : ∃ t, commas ((a :: as).map text) ++ close :: rest = c :: t := by
      cases as with
      | nil => exact ⟨_, by rw [List.map_singleton, commas, heq]; rfl⟩
      | cons b as => exact ⟨_, by rw [List.map_cons, List.map_cons, commas, heq]; rfl⟩
    exact ⟨c, t, ht, hblank, hother, ht ▸ hsequence⟩

/-! ## The round trip -/

/-- A value begins with a letter that is no blank and no closing bracket. -/
theorem write_head (hF : F.Documented) (v : Json Φ) :
    ∃ c u, write F v = c :: u ∧ ¬IsBlank c ∧ c ≠ ']' ∧ c ≠ '}' := by
  have hnumeral : ∀ {t : Str}, (numeral t).isSome = true → ∃ c u, t = c :: u ∧ ¬IsBlank c ∧
      c ≠ ']' ∧ c ≠ '}' := by
    intro t ht
    obtain ⟨d, u, hd, rfl | rfl⟩ := head_of_numeral ht
    · have hblank : ¬IsBlank d := by
        rintro (rfl | rfl | rfl | rfl) <;> cases hd
      exact ⟨d, u, rfl, hblank, isDigit_ne hd (by decide), isDigit_ne hd (by decide)⟩
    · exact ⟨'-', d :: u, rfl, by decide, by decide, by decide⟩
  cases v with
  | null => exact ⟨_, _, rfl, by decide, by decide, by decide⟩
  | bool b => cases b <;> exact ⟨_, _, rfl, by decide, by decide, by decide⟩
  | int n => exact hnumeral (t := integer n) (by rw [numeral_integer]; rfl)
  | float x =>
    obtain ⟨w, e, -, htoken⟩ := hF.token x
    exact hnumeral (t := F.text x) (by rw [htoken]; rfl)
  | infinity negative => cases negative <;> exact ⟨_, _, rfl, by decide, by decide, by decide⟩
  | nan => exact ⟨_, _, rfl, by decide, by decide, by decide⟩
  | str s => exact ⟨_, _, rfl, by decide, by decide, by decide⟩
  | list items => exact ⟨_, _, rfl, by decide, by decide, by decide⟩
  | dict entries => exact ⟨_, _, rfl, by decide, by decide, by decide⟩

theorem write_ne_nil (hF : F.Documented) (v : Json Φ) : write F v ≠ [] := by
  obtain ⟨c, u, heq, -⟩ := write_head hF v
  rw [heq]
  exact List.cons_ne_nil c u

/-- An entry is read back if its value is. -/
theorem entry_writeEntry (hF : F.Documented) {read : Str → Option (Json Φ × Str)}
    {e : Text × Json Φ}
    (hkey : Joined e.1) (rest : Str) (h : read (write F e.2 ++ rest) = some (e.2, rest)) :
    entry read (writeEntry F e ++ rest) = some (e, rest) := by
  obtain ⟨c, u, hhead, hblank, -⟩ := write_head hF e.2
  have htext : writeEntry F e ++ rest =
      '"' :: (e.1.flatMap escape ++ '"' :: (':' :: (write F e.2 ++ rest))) := by
    simp [writeEntry, quoted]
  rw [htext, entry, string_quoted hkey, Option.bind_some]
  dsimp only
  rw [skip_cons (by decide)]
  change (read (skip (write F e.2 ++ rest))).map _ = _
  rw [skip_of_head ⟨c, u, hhead, hblank⟩, h]
  rfl

/-- Entries with distinct keys are the dictionary that they make. -/
theorem setAll_of_nodup {α : Type u} {l : List (Text × α)} (h : (Dict.keys l).Nodup) :
    Dict.setAll [] l = l := by
  have hgeneral : ∀ d : List (Text × α), (Dict.keys (d ++ l)).Nodup → Dict.setAll d l = d ++ l := by
    induction l with
    | nil => exact fun d _ => (List.append_nil d).symm
    | cons e l ih =>
      intro d hd
      have hnew : e.1 ∉ Dict.keys d := by
        intro hmem
        rw [Dict.keys, List.map_append] at hd
        exact (List.nodup_append.1 hd).2.2 e.1 hmem e.1 List.mem_cons_self rfl
      have hcons : d ++ e :: l = (d ++ [e]) ++ l := by rw [List.append_assoc, List.singleton_append]
      rw [Dict.setAll_cons, Dict.set_of_not_mem hnew, hcons]
      exact ih (List.Nodup.of_cons h) (d ++ [e]) (hcons ▸ hd)
  exact hgeneral [] h

/-- A value is read back from its text, whatever follows. -/
theorem read_write (hF : F.Documented) {v : Json Φ} (h : Whole limit v) {n : Nat}
    (hn : (write F v).length < n) {rest : Str} (hrest : Stops rest) :
    value F limit n (write F v ++ rest) = some (v, rest) := by
  -- The induction is on the fuel, which is above the length of what is left to read.
  induction n generalizing v rest with
  | zero => cases hn
  | succ n ih =>
    cases h with
    | null => rfl
    | bool b => cases b <;> rfl
    -- a number is told from the literals by its first character
    | int hshort =>
      rename_i m
      have hsome : (numeral (integer m ++ rest)).isSome = true := by
        rw [numeral_append hrest, numeral_integer]
        rfl
      exact (value_of_numeral hsome n).trans (number_integer hshort hrest)
    | float x =>
      have hsome : (numeral (F.text x ++ rest)).isSome = true := by
        obtain ⟨w, e, -, htoken⟩ := hF.token x
        rw [numeral_append hrest, htoken]
        rfl
      exact (value_of_numeral hsome n).trans (number_float hF x hrest)
    | infinity negative => cases negative <;> rfl
    | nan => rfl
    | str hjoined =>
      rename_i s
      have htext : write F (.str s) ++ rest = '"' :: (s.flatMap escape ++ '"' :: rest) := by
        simp [write, quoted]
      rw [htext, value, string_quoted hjoined]
      rfl
    | list hitems =>
      rename_i items
      -- `[` is followed by `]` only in the empty list
      by_cases hempty : items = []
      · rw [hempty]
        rfl
      · have hlength : (commas (items.map (write F))).length + 2 < n + 1 := by
          rw [write, List.length_append, List.length_cons, writeItems_eq] at hn
          exact hn
        have htext : write F (.list items) ++ rest =
            '[' :: (commas (items.map (write F)) ++ ']' :: rest) := by
          rw [write, writeItems_eq]
          simp
        -- each item is shorter than the list, so its own fuel is enough
        have helement : ∀ a ∈ items, (write F a).length ≤ (commas (items.map (write F))).length →
            ∀ r, Stops r → value F limit n (write F a ++ r) = some (a, r) :=
          fun a ha hle r hr => ih (hitems a ha) (by omega) hr
        have hhead : ∀ a ∈ items, ∃ c u, write F a = c :: u ∧ ¬IsBlank c ∧ c ≠ ']' := by
          intro a _
          obtain ⟨c, u, heq, hblank, hclose, -⟩ := write_head hF a
          exact ⟨c, u, heq, hblank, hclose⟩
        obtain ⟨c, t, ht, hblank, hclose, hsequence⟩ :=
          sequence_written (Or.inl rfl) hempty hhead helement (n := n + 1) (by omega) rest
        rw [htext, ht, value, skip_cons hblank]
        split
        · rename_i heq
          exact absurd (List.cons.inj heq).1 hclose
        · rw [hsequence]
          rfl
    | dict hnodup hkeys hitems =>
      rename_i entries
      by_cases hempty : entries = []
      · rw [hempty]
        rfl
      · have hlength : (commas (entries.map (writeEntry F))).length + 2 < n + 1 := by
          rw [write, List.length_append, List.length_cons, writeEntries_eq] at hn
          exact hn
        have htext : write F (.dict entries) ++ rest =
            '\x7b' :: (commas (entries.map (writeEntry F)) ++ '\x7d' :: rest) := by
          rw [write, writeEntries_eq]
          simp
        -- the value of an entry is shorter than the entry, and the entry than the object
        have helement : ∀ a ∈ entries,
          (writeEntry F a).length ≤ (commas (entries.map (writeEntry F))).length →
            ∀ r, Stops r → entry (value F limit n) (writeEntry F a ++ r) = some (a, r) := by
          intro a ha hle r hr
          have hvalue : (write F a.2).length ≤ (writeEntry F a).length := by
            rw [writeEntry, List.length_append, List.length_cons]
            omega
          exact entry_writeEntry hF (hkeys a ha) r (ih (hitems a ha) (by omega) hr)
        -- an entry starts with the quotation mark of its key, which does not close the object
        have hhead : ∀ a ∈ entries, ∃ c u, writeEntry F a = c :: u ∧ ¬IsBlank c ∧ c ≠ '\x7d' :=
          fun a _ => ⟨_, _, rfl, by decide, by decide⟩
        obtain ⟨c, t, ht, hblank, hclose, hsequence⟩ :=
          sequence_written (Or.inr rfl) hempty hhead helement (n := n + 1) (by omega) rest
        rw [htext, ht, value, skip_cons hblank]
        split
        · rename_i heq
          exact absurd (List.cons.inj heq).1 hclose
        · rw [hsequence, Option.map_some, setAll_of_nodup hnodup]

/-- What is written is read back. -/
theorem loads_write (hF : F.Documented) {v : Json Φ} (h : Whole limit v) :
    loads F limit (write F v) = some v := by
  have hread := read_write hF h (Nat.lt_succ_self _) stops_nil
  obtain ⟨c, u, heq, hblank, -⟩ := write_head hF v
  have hskip : skip (write F v) = write F v ++ [] := by
    rw [List.append_nil, heq, skip_cons hblank]
  rw [loads, hskip, hread]
  rfl

end LocalPost.Core.Json
