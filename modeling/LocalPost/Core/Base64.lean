import Mathlib.Data.List.Basic

/-!
# Base64

The encoding, and the decoder of `binascii.a2b_base64` in its strict mode. The decoder takes the
groups of four digits one after the other and padding at the end only, but the bits of the last
digit that no byte takes may be anything, and the older versions let padding pass behind a complete
group (`excess`). So it inverts the encoding (`a2b_encode`), and what it takes is an encoding
exactly when it is `Canonical` (`canonical_iff`).
-/

set_option autoImplicit false

namespace LocalPost.Core.Base64

/-- The digit for six bits. -/
def digit (n : Nat) : UInt8 :=
  if n < 26 then UInt8.ofNat (65 + n)
  else if n < 52 then UInt8.ofNat (71 + n)
  else if n < 62 then UInt8.ofNat (n - 4)
  else if n = 62 then 43
  else 47

/-- The six bits of a digit. -/
def value (c : UInt8) : Option Nat :=
  if 65 ≤ c ∧ c ≤ 90 then some (c.toNat - 65)
  else if 97 ≤ c ∧ c ≤ 122 then some (c.toNat - 71)
  else if 48 ≤ c ∧ c ≤ 57 then some (c.toNat + 4)
  else if c = 43 then some 62
  else if c = 47 then some 63
  else none

/-- `=`. -/
def pad : UInt8 := 61

/-- `b64encode`. -/
def encode : List UInt8 → List UInt8
  | [] => []
  | [x] => [digit (x.toNat / 4), digit (x.toNat % 4 * 16), pad, pad]
  | [x, y] =>
    [digit (x.toNat / 4), digit (x.toNat % 4 * 16 + y.toNat / 16), digit (y.toNat % 16 * 4), pad]
  | x :: y :: z :: rest =>
    digit (x.toNat / 4) :: digit (x.toNat % 4 * 16 + y.toNat / 16) ::
      digit (y.toNat % 16 * 4 + z.toNat / 64) :: digit (z.toNat % 64) :: encode rest

/-- The groups of `a2b_base64`. -/
def groups (excess : Bool) : List UInt8 → Option (List UInt8)
  | a :: b :: c :: d :: rest =>
    match value a with
    | none => if excess ∧ (a :: b :: c :: d :: rest).all (· = pad) then some [] else none
    | some i =>
      match value b with
      | none => none
      | some j =>
        match value c with
        | none =>
          if c = pad ∧ d = pad ∧ rest = [] then some [UInt8.ofNat (i * 4 + j / 16)] else none
        | some k =>
          match value d with
          | none =>
            if d = pad ∧ rest = [] then
              some [UInt8.ofNat (i * 4 + j / 16), UInt8.ofNat (j % 16 * 16 + k / 4)]
            else none
          | some l => (groups excess rest).map fun bs =>
            UInt8.ofNat (i * 4 + j / 16) :: UInt8.ofNat (j % 16 * 16 + k / 4) ::
              UInt8.ofNat (k % 4 * 64 + l) :: bs
  | rest => if rest = [] ∨ excess ∧ rest.all (· = pad) then some [] else none

/-- `binascii.a2b_base64(s, strict_mode=True)`; `none` is a `binascii.Error`. -/
def a2b (excess : Bool) (s : List UInt8) : Option (List UInt8) :=
  if s.head? = some pad then none else groups excess s

/-- The spare bits of the last digits are zero, and no padding is behind a complete group. -/
def Canonical : List UInt8 → Prop
  | a :: b :: c :: d :: rest =>
    a ≠ pad ∧ (c = pad → ∀ j, value b = some j → j % 16 = 0) ∧
      (c ≠ pad → d = pad → ∀ k, value c = some k → k % 4 = 0) ∧ Canonical rest
  | rest => rest = []

/-! ## Digits -/

theorem value_digit {n : Nat} (h : n < 64) : value (digit n) = some n := by
  have hall : ∀ n < 64, value (digit n) = some n := by decide +kernel
  exact hall n h

theorem value_pad : value pad = none := by decide

theorem digit_of_value {c : UInt8} {n : Nat} (h : value c = some n) : n < 64 ∧ digit n = c := by
  have hall : ∀ k < 256, ∀ n ∈ value (UInt8.ofNat k), n < 64 ∧ digit n = UInt8.ofNat k := by
    decide +kernel
  have hc := hall c.toNat c.toNat_lt
  rw [UInt8.ofNat_toNat] at hc
  exact hc n h

theorem ne_pad_of_value {c : UInt8} {n : Nat} (h : value c = some n) : c ≠ pad := by
  rintro rfl
  rw [value_pad] at h
  cases h

theorem digit_ne_pad {n : Nat} (h : n < 64) : digit n ≠ pad := ne_pad_of_value (value_digit h)

/-- The number of a byte that is made of one. -/
theorem toNat_byte {n : Nat} (h : n < 256) : (UInt8.ofNat n).toNat = n := by
  rw [UInt8.toNat_ofNat']
  exact Nat.mod_eq_of_lt h

/-- Digits that are equal to the bits of a byte give the byte. -/
theorem byte_of_toNat {x : UInt8} {n : Nat} (h : n = x.toNat) : UInt8.ofNat n = x := by
  rw [h, UInt8.ofNat_toNat]

/-! ## The decoder inverts the encoding -/

/-- The decoder takes the groups of an encoding apart into the bytes they were made from. -/
theorem groups_encode (excess : Bool) (bs : List UInt8) : groups excess (encode bs) = some bs := by
  fun_induction encode bs with
  | case1 => rfl
  | case2 x =>
    have hx := x.toNat_lt
    rw [groups, value_digit (by omega), value_digit (by omega), value_pad]
    dsimp only
    rw [if_pos ⟨rfl, rfl, rfl⟩, byte_of_toNat (x := x) (by omega)]
  | case3 x y =>
    have hx := x.toNat_lt
    have hy := y.toNat_lt
    rw [groups, value_digit (by omega), value_digit (by omega), value_digit (by omega), value_pad]
    dsimp only
    rw [if_pos ⟨rfl, rfl⟩, byte_of_toNat (x := x) (by omega), byte_of_toNat (x := y) (by omega)]
  | case4 x y z rest ih =>
    have hx := x.toNat_lt
    have hy := y.toNat_lt
    have hz := z.toNat_lt
    rw [groups, value_digit (by omega), value_digit (by omega), value_digit (by omega),
      value_digit (by omega)]
    dsimp only
    rw [ih, Option.map_some, byte_of_toNat (x := x) (by omega), byte_of_toNat (x := y) (by omega),
      byte_of_toNat (x := z) (by omega)]

/-- No encoding begins with padding. -/
theorem head_encode (bs : List UInt8) : (encode bs).head? ≠ some pad := by
  intro h
  cases bs with
  | nil => cases h
  | cons x bs =>
    have hx := x.toNat_lt
    have hdigit : (encode (x :: bs)).head? = some (digit (x.toNat / 4)) := by
      cases bs with
      | nil => rfl
      | cons y bs => cases bs <;> rfl
    rw [hdigit, Option.some.injEq] at h
    exact digit_ne_pad (by omega) h

/-- An encoding is decoded to the bytes. -/
theorem a2b_encode (excess : Bool) (bs : List UInt8) : a2b excess (encode bs) = some bs := by
  rw [a2b, if_neg (head_encode bs), groups_encode]

/-! ## What is decoded -/

/-- What is encoded is canonical: no bit of its last digit is left over. -/
theorem canonical_encode (bs : List UInt8) : Canonical (encode bs) := by
  fun_induction encode bs with
  | case1 => rfl
  | case2 x =>
    have hx := x.toNat_lt
    refine ⟨digit_ne_pad (by omega), fun _ j hj => ?_, fun h => absurd rfl h, rfl⟩
    rw [value_digit (by omega), Option.some.injEq] at hj
    omega
  | case3 x y =>
    have hx := x.toNat_lt
    have hy := y.toNat_lt
    refine ⟨digit_ne_pad (by omega),
      fun h => absurd h (digit_ne_pad (by omega)), fun _ _ k hk => ?_, rfl⟩
    rw [value_digit (by omega), Option.some.injEq] at hk
    omega
  | case4 x y z rest ih =>
    have hx := x.toNat_lt
    have hy := y.toNat_lt
    have hz := z.toNat_lt
    refine ⟨digit_ne_pad (by omega), fun h => absurd h (digit_ne_pad (by omega)),
      fun _ h => absurd h (digit_ne_pad (by omega)), ih⟩

/-- Canonical groups are the encoding of what they are decoded to. -/
theorem encode_of_groups {excess : Bool} {s bs : List UInt8} (h : groups excess s = some bs)
    (hc : Canonical s) : encode bs = s := by
  fun_induction groups excess s generalizing bs with
  | case1 a b c d rest ha hpads =>
    -- nothing but padding
    have hfirst : a = pad := by simpa using (List.all_eq_true.1 hpads.2) a List.mem_cons_self
    exact absurd hfirst hc.1
  | case2 a b c d rest ha hpads => cases h
  | case3 a b c d rest i ha hb => cases h
  | case4 a b c d rest i ha j hb hvc hends =>
    cases h
    obtain ⟨rfl, rfl, rfl⟩ := hends
    obtain ⟨hi, hda⟩ := digit_of_value ha
    obtain ⟨hj, hdb⟩ := digit_of_value hb
    have hspare := hc.2.1 rfl j hb
    rw [encode, toNat_byte (by omega), ← hda, ← hdb]
    congr 2
    · omega
    · congr 2
      omega
  | case5 a b c d rest i ha j hb hvc hends => cases h
  | case6 a b c d rest i ha j hb k hvc hvd hends =>
    cases h
    obtain ⟨rfl, rfl⟩ := hends
    obtain ⟨hi, hda⟩ := digit_of_value ha
    obtain ⟨hj, hdb⟩ := digit_of_value hb
    obtain ⟨hk, hdc⟩ := digit_of_value hvc
    have hspare := hc.2.2.1 (ne_pad_of_value hvc) rfl k hvc
    rw [encode, toNat_byte (by omega), toNat_byte (by omega), ← hda, ← hdb, ← hdc]
    have h1 : (i * 4 + j / 16) / 4 = i := by omega
    have h2 : (i * 4 + j / 16) % 4 * 16 + (j % 16 * 16 + k / 4) / 16 = j := by omega
    have h3 : (j % 16 * 16 + k / 4) % 16 * 4 = k := by omega
    rw [h1, h2, h3]
  | case7 a b c d rest i ha j hb k hvc hvd hends => cases h
  | case8 a b c d rest i ha j hb k hvc l hvd ih =>
    obtain ⟨bs', hrest, rfl⟩ := Option.map_eq_some_iff.1 h
    obtain ⟨hi, hda⟩ := digit_of_value ha
    obtain ⟨hj, hdb⟩ := digit_of_value hb
    obtain ⟨hk, hdc⟩ := digit_of_value hvc
    obtain ⟨hl, hdd⟩ := digit_of_value hvd
    rw [encode, toNat_byte (by omega), toNat_byte (by omega), toNat_byte (by omega),
      ih hrest hc.2.2.2, ← hda, ← hdb, ← hdc, ← hdd]
    have h1 : (i * 4 + j / 16) / 4 = i := by omega
    have h2 : (i * 4 + j / 16) % 4 * 16 + (j % 16 * 16 + k / 4) / 16 = j := by omega
    have h3 : (j % 16 * 16 + k / 4) % 16 * 4 + (k % 4 * 64 + l) / 64 = k := by omega
    have h4 : (k % 4 * 64 + l) % 64 = l := by omega
    rw [h1, h2, h3, h4]
  | case9 rest hshort hends =>
    cases h
    rw [Canonical] at hc
    · rw [hc]
      rfl
    · exact hshort
  | case10 rest hshort hends => cases h

/-- What is decoded is an encoding exactly when it is canonical. -/
theorem canonical_iff {excess : Bool} {s bs : List UInt8} (h : a2b excess s = some bs) :
    Canonical s ↔ s = encode bs := by
  rw [a2b] at h
  split at h
  · cases h
  · constructor
    · intro hc
      exact (encode_of_groups h hc).symm
    · rintro rfl
      exact canonical_encode bs

/-- An encoding is ASCII. -/
theorem ascii_encode (bs : List UInt8) : (encode bs).all (fun b => b.toNat < 128) = true := by
  have hdigit : ∀ n < 64, (digit n).toNat < 128 := by decide +kernel
  have hpad : pad.toNat < 128 := by decide
  fun_induction encode bs with
  | case1 => rfl
  | case2 x =>
    have hx := x.toNat_lt
    simp [hdigit _ (show x.toNat / 4 < 64 by omega),
      hdigit _ (show x.toNat % 4 * 16 < 64 by omega), hpad]
  | case3 x y =>
    have hx := x.toNat_lt
    have hy := y.toNat_lt
    simp [hdigit _ (show x.toNat / 4 < 64 by omega),
      hdigit _ (show x.toNat % 4 * 16 + y.toNat / 16 < 64 by omega),
      hdigit _ (show y.toNat % 16 * 4 < 64 by omega), hpad]
  | case4 x y z rest ih =>
    have hx := x.toNat_lt
    have hy := y.toNat_lt
    have hz := z.toNat_lt
    rw [List.all_cons, List.all_cons, List.all_cons, List.all_cons, ih]
    simp [hdigit _ (show x.toNat / 4 < 64 by omega),
      hdigit _ (show x.toNat % 4 * 16 + y.toNat / 16 < 64 by omega),
      hdigit _ (show y.toNat % 16 * 4 + z.toNat / 64 < 64 by omega),
      hdigit _ (show z.toNat % 64 < 64 by omega)]

end LocalPost.Core.Base64
