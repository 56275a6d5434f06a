import LocalPost.Core.Dict
import LocalPost.Core.Text
import LocalPost.Http.Static.Range

/-!
# Choosing a content coding

`negotiate` reads an `Accept-Encoding` header with a loop that keeps a dictionary of qualities and
the quality of `*`, and takes the first coding of the server that the client accepts. What the
header says is the list of its entries: a coding has the quality of its last entry, otherwise that
of the last `*` (`effective`).

`negotiate_eq_reference`: the choice is the first preference of positive effective quality.
-/

set_option autoImplicit false

namespace LocalPost.Http.Compress

open LocalPost.Core
open LocalPost.Http.Bytes (strip)
open LocalPost.Http.Static (partition)

/-- The numbers that `float` makes of byte strings: `none` stands for its `ValueError`, `positive`
for the test `q > 0`. -/
structure FloatType where
  Value : Type
  float : Bytes → Option Value
  zero : Value
  one : Value
  positive : Value → Bool
  positive_zero : positive zero = false
  positive_one : positive one = true

/-- `name.decode("ascii", errors="replace")`. -/
def decodeReplace (b : Bytes) : Str := b.map fun x => if x < 128 then charOfByte x else '\uFFFD'

/-- `"*"`. -/
def star : Str := ['*']

variable (F : FloatType)

/-- `float(value)`, and zero where that raises. -/
def qualityOf (value : Bytes) : F.Value :=
  match F.float value with
  | some q => q
  | none => F.zero

/-- The loop over the parameters of an entry: the first `q` ends it. -/
def paramQuality : List Bytes → F.Value
  | [] => F.one
  | param :: params =>
    let (k, kv_sep, v) := partition 61 (strip param)
    if kv_sep ≠ [] ∧ Bytes.lower (strip k) = [113] then
      -- `break`: another `q` behind this one is not read.
      qualityOf F (strip v)
    else paramQuality params

/-- The name and the quality of an entry. -/
def parseToken (token : Bytes) : Str × F.Value :=
  let (name_b, sep, params) := partition 59 token
  (lowerText (decodeReplace (strip name_b)),
    if sep ≠ [] then paramQuality F (params.splitOn 59) else F.one)

/-- `qs` and `star_q`. -/
structure Qualities where
  qs : Dict Str F.Value
  starQ : Option F.Value

/-- The loop over the header, for one piece between two commas. -/
def Qualities.piece (s : Qualities F) (raw : Bytes) : Qualities F :=
  let token := strip raw
  if token = [] then s
  else
    let (name, q) := parseToken F token
    if name = star then { s with starQ := some q } else { s with qs := Dict.set name q s.qs }

/-- The loop over the preferences. -/
def Qualities.choose (s : Qualities F) : List Str → Option Str
  | [] => none
  | pref :: prefs =>
    -- `*` speaks only for what the header does not list.
    let q := match Dict.get? pref s.qs with
      | some q => some q
      | none => s.starQ
    match q with
    | some q => if F.positive q then some pref else choose s prefs
    | none => choose s prefs

/-- `_negotiate`. -/
def negotiate (acceptEncoding : Bytes) (serverPref : List Str) : Option Str :=
  ((acceptEncoding.splitOn 44).foldl (Qualities.piece F) ⟨[], none⟩).choose F serverPref

/-! ## What the header says -/

/-- A parameter of the name `q`. -/
def IsQ (param : Bytes) : Prop :=
  61 ∈ strip param ∧ Bytes.lower (strip ((strip param).takeWhile (· ≠ 61))) = [113]

instance (param : Bytes) : Decidable (IsQ param) := inferInstanceAs (Decidable (_ ∧ _))

/-- The quality that an entry states: by its first `q`, of which an unparsable one is zero; one if
there is none. -/
def statedQuality (entry : Bytes) : F.Value :=
  match (((entry.splitOn 59).drop 1).find? fun param => IsQ param) with
  | some param => qualityOf F (strip (((strip param).dropWhile (· ≠ 61)).drop 1))
  | none => F.one

/-- The entries of the header: what is not blank between the commas, by its name and quality. -/
def entries (acceptEncoding : Bytes) : List (Str × F.Value) :=
  (((acceptEncoding.splitOn 44).map strip).filter (· ≠ [])).map fun entry =>
    (lowerText (decodeReplace (strip (entry.takeWhile (· ≠ 59)))), statedQuality F entry)

/-- The quality of the last entry of a name. -/
def lastQuality (name : Str) (es : List (Str × F.Value)) : Option F.Value :=
  (es.reverse.find? fun e => e.1 = name).map Prod.snd

/-- The quality of a coding: that of its last entry, otherwise that of the last `*`. -/
def effective (acceptEncoding : Bytes) (coding : Str) : Option F.Value :=
  (lastQuality F coding (entries F acceptEncoding)).or
    (lastQuality F star (entries F acceptEncoding))

/-- The client accepts a coding. -/
def Accepts (acceptEncoding : Bytes) (coding : Str) : Prop :=
  (effective F acceptEncoding coding).any F.positive = true

instance (acceptEncoding : Bytes) (coding : Str) : Decidable (Accepts F acceptEncoding coding) :=
  inferInstanceAs (Decidable (_ = _))

/-! ## The loop collects what the header says -/

/-- Splitting at a separator begins with what stands before the first one. -/
theorem splitOn_eq_cons (sep : UInt8) (b : Bytes) :
    b.splitOn sep = b.takeWhile (· ≠ sep) ::
      if (b.dropWhile (· ≠ sep)).take 1 ≠ [] then ((b.dropWhile (· ≠ sep)).drop 1).splitOn sep
      else [] := by
  induction b with
  | nil => rfl
  | cons x b ih =>
    rw [List.splitOn_cons_eq_if_modifyHead]
    by_cases hx : x = sep
    · rw [if_pos (beq_iff_eq.2 hx), List.takeWhile_cons_of_neg (by simpa using hx),
        List.dropWhile_cons_of_neg (by simpa using hx)]
      simp
    · rw [if_neg fun h => hx (beq_iff_eq.1 h), ih, List.takeWhile_cons_of_pos (by simpa using hx),
        List.dropWhile_cons_of_pos (by simpa using hx)]
      rfl

theorem rest_ne_nil_iff {sep : UInt8} {b : Bytes} :
    (b.dropWhile (· ≠ sep)).take 1 ≠ [] ↔ sep ∈ b := by
  rw [ne_eq, List.take_eq_nil_iff, List.dropWhile_eq_nil_iff]
  constructor
  · intro h
    by_contra hmem
    exact h (.inr fun x hx => decide_eq_true fun heq => hmem (heq ▸ hx))
  · rintro hmem (hone | hall)
    · exact absurd hone Nat.one_ne_zero
    · exact of_decide_eq_true (hall sep hmem) rfl

/-- The loop over the parameters stops at the first `q`. -/
theorem paramQuality_eq (params : List Bytes) :
    paramQuality F params =
      match params.find? fun param => IsQ param with
      | some param => qualityOf F (strip (((strip param).dropWhile (· ≠ 61)).drop 1))
      | none => F.one := by
  induction params with
  | nil => rfl
  | cons param params ih =>
    have hparts : partition 61 (strip param) = ((strip param).takeWhile (· ≠ 61),
        ((strip param).dropWhile (· ≠ 61)).take 1, ((strip param).dropWhile (· ≠ 61)).drop 1) := rfl
    rw [paramQuality, hparts]
    by_cases hq : IsQ param
    · dsimp only
      rw [if_pos ⟨rest_ne_nil_iff.2 hq.1, hq.2⟩, List.find?_cons_of_pos (by simpa using hq)]
    · dsimp only
      rw [if_neg fun h => hq ⟨rest_ne_nil_iff.1 h.1, h.2⟩,
        List.find?_cons_of_neg (by simpa using hq)]
      exact ih

/-- What the loop reads off an entry is what the entry states. -/
theorem parseToken_eq (token : Bytes) :
    parseToken F token =
      (lowerText (decodeReplace (strip (token.takeWhile (· ≠ 59)))), statedQuality F token) := by
  have hparts : partition 59 token = (token.takeWhile (· ≠ 59),
      (token.dropWhile (· ≠ 59)).take 1, (token.dropWhile (· ≠ 59)).drop 1) := rfl
  rw [parseToken, hparts]
  dsimp only
  rw [statedQuality, splitOn_eq_cons 59 token, List.drop_succ_cons,
    List.drop_zero, ← paramQuality_eq]
  split
  · rfl
  · rfl

theorem lastQuality_concat (name : Str) (es : List (Str × F.Value)) (e : Str × F.Value) :
    lastQuality F name (es ++ [e]) = if e.1 = name then some e.2 else lastQuality F name es := by
  rw [lastQuality, List.reverse_append, List.reverse_singleton, List.singleton_append]
  by_cases he : e.1 = name
  · rw [if_pos he, List.find?_cons_of_pos (by simpa using he), Option.map_some]
  · rw [if_neg he, List.find?_cons_of_neg (by simpa using he), lastQuality]

/-- The loop has read the entries `es`. -/
structure Qualities.Collects (s : Qualities F) (es : List (Str × F.Value)) : Prop where
  starQ : s.starQ = lastQuality F star es
  qs : ∀ name, Dict.get? name s.qs = if name = star then none else lastQuality F name es

/-- The next piece adds the entry it is parsed to, if it is not blank. -/
theorem Qualities.Collects.piece {s : Qualities F} {es : List (Str × F.Value)} (h : s.Collects F es)
    (raw : Bytes) :
    (s.piece F raw).Collects F
      (es ++ (if strip raw = [] then [] else [parseToken F (strip raw)])) := by
  rw [Qualities.piece]
  by_cases hblank : strip raw = []
  · rw [if_pos hblank, if_pos hblank, List.append_nil]
    exact h
  · rw [if_neg hblank, if_neg hblank]
    obtain ⟨name, q⟩ := parseToken F (strip raw)
    dsimp only
    -- An entry goes over the earlier ones of its name, in the dictionary or in `star_q`.
    by_cases hstar : name = star
    · rw [if_pos hstar]
      refine ⟨?_, fun name' => ?_⟩
      · rw [lastQuality_concat, if_pos hstar]
      · rw [h.qs, lastQuality_concat, hstar]
        split
        · rfl
        · rename_i hne
          rw [if_neg (Ne.symm hne)]
    · rw [if_neg hstar]
      refine ⟨?_, fun name' => ?_⟩
      · rw [lastQuality_concat, if_neg hstar]
        exact h.starQ
      · rw [Dict.get?_set, lastQuality_concat, h.qs]
        by_cases hname : name = name'
        · rw [if_pos hname, if_pos hname, if_neg (hname ▸ hstar)]
        · rw [if_neg hname, if_neg hname]

/-- The loop reads the entries of all pieces that are not blank, in order. -/
theorem collects_foldl (raws : List Bytes) :
    (raws.foldl (Qualities.piece F) ⟨[], none⟩).Collects F
      (((raws.map strip).filter (· ≠ [])).map (parseToken F)) := by
  -- From the right: the loop keeps what it has and adds one piece.
  induction raws using List.reverseRecOn with
  | nil => exact ⟨rfl, fun name => by split <;> rfl⟩
  | append_singleton raws raw ih =>
    have hpiece := ih.piece F raw
    rw [List.foldl_append, List.foldl_cons, List.foldl_nil, List.map_append, List.filter_append,
      List.map_append]
    convert hpiece using 2
    by_cases hblank : strip raw = []
    · simp [hblank]
    · simp [hblank]

theorem collects_header (acceptEncoding : Bytes) :
    ((acceptEncoding.splitOn 44).foldl (Qualities.piece F) ⟨[], none⟩).Collects F
      (entries F acceptEncoding) := by
  have h := collects_foldl F (acceptEncoding.splitOn 44)
  rw [funext (parseToken_eq F)] at h
  exact h

/-- The first preferred coding with a positive quality is chosen, its own or that of the star. -/
theorem choose_eq {s : Qualities F} {es : List (Str × F.Value)} (h : s.Collects F es)
    (prefs : List Str) :
    s.choose F prefs = prefs.find? fun coding =>
      ((lastQuality F coding es).or (lastQuality F star es)).any F.positive := by
  induction prefs with
  | nil => rfl
  | cons coding prefs ih =>
    have hq : (match Dict.get? coding s.qs with
        | some q => some q
        | none => s.starQ) = (lastQuality F coding es).or (lastQuality F star es) := by
      rw [h.qs, h.starQ]
      -- A preference `*` is not in the dictionary, so `star_q` speaks for it too.
      by_cases hstar : coding = star
      · rw [if_pos hstar, hstar, Option.or_self]
      · rw [if_neg hstar]
        cases lastQuality F coding es <;> rfl
    rw [Qualities.choose, hq, ih]
    cases hquality : (lastQuality F coding es).or (lastQuality F star es) with
    | none => rw [List.find?_cons_of_neg (by simp [hquality])]
    | some q =>
      simp only
      by_cases hpositive : F.positive q = true
      · rw [if_pos hpositive, List.find?_cons_of_pos (by simpa [hquality] using hpositive)]
      · rw [if_neg hpositive, List.find?_cons_of_neg (by simpa [hquality] using hpositive)]

/-- The choice is the first preference that the client accepts. -/
theorem negotiate_eq (acceptEncoding : Bytes) (serverPref : List Str) :
    negotiate F acceptEncoding serverPref =
      serverPref.find? fun coding => (effective F acceptEncoding coding).any F.positive := by
  rw [negotiate, choose_eq F (collects_header F acceptEncoding)]
  rfl

theorem mem_of_negotiate {acceptEncoding : Bytes} {serverPref : List Str} {coding : Str}
    (h : negotiate F acceptEncoding serverPref = some coding) :
    coding ∈ serverPref ∧ Accepts F acceptEncoding coding := by
  rw [negotiate_eq] at h
  have haccepts := List.find?_some h
  exact ⟨List.mem_of_find?_eq_some h, haccepts⟩

/-- A coding that the header does not list, with no `*`, or whose quality is zero, is not
accepted. -/
theorem not_accepts {acceptEncoding : Bytes} {coding : Str}
    (h : effective F acceptEncoding coding = none ∨
      effective F acceptEncoding coding = some F.zero) :
    ¬Accepts F acceptEncoding coding := by
  intro haccepts
  rw [Accepts] at haccepts
  rcases h with h | h
  · rw [h] at haccepts
    cases haccepts
  · rw [h, Option.any_some, F.positive_zero] at haccepts
    cases haccepts

/-- For every header and every list of preferences the choice is the first preference of positive
effective quality, and none without one; so a coding that the client disabled or did not list is
never chosen. -/
theorem negotiate_eq_reference (acceptEncoding : Bytes) (serverPref : List Str) :
    negotiate F acceptEncoding serverPref =
        (serverPref.find? fun coding => (effective F acceptEncoding coding).any F.positive) ∧
      ∀ coding, effective F acceptEncoding coding = none ∨
          effective F acceptEncoding coding = some F.zero →
        negotiate F acceptEncoding serverPref ≠ some coding := by
  refine ⟨negotiate_eq F acceptEncoding serverPref, ?_⟩
  intro coding hcoding hchosen
  exact not_accepts F hcoding (mem_of_negotiate F hchosen).2

end LocalPost.Http.Compress
