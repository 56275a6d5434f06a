import LocalPost.Http.Types

/-!
# The Range header of the static file handler

`parseRange` is `_parse_range`. `ByteRange` and `Grammar` are what it is for: the single byte
ranges a header can name and the bytes each of them selects. `parseRange_answers_iff` says for which
headers and file sizes the function answers as the grammar has it.
-/

set_option autoImplicit false

namespace LocalPost.Http.Static

open LocalPost.Core
open LocalPost.Http.Bytes (strip)

/-! ## The function -/

/-- What `_parse_range` returns: offset and length, `"unsatisfiable"`, or `None`. -/
inductive Parsed where
  | range (offset length : Int)
  | unsatisfiable
  | ignored
  deriving DecidableEq, Repr

/-- The `ValueError` of `int`. -/
inductive ValueError where
  | invalidLiteral
  | exceedsLimit
  deriving DecidableEq, Repr

/-- More digits than the interpreter converts (`sys.set_int_max_str_digits`); `0` is no limit. -/
def Exceeds (limit : Nat) (b : Bytes) : Prop := 0 < limit ∧ limit < b.countP Ascii.isDigit

instance (limit : Nat) (b : Bytes) : Decidable (Exceeds limit b) :=
  inferInstanceAs (Decidable (_ ∧ _))

/-- `int(b)` with its exceptions. -/
def pyInt (limit : Nat) (b : Bytes) : Except ValueError Int :=
  match Bytes.int b with
  | none => .error .invalidLiteral
  | some n => if Exceeds limit b then .error .exceedsLimit else .ok n

/-- `bytes.partition(sep)` at a separator of one byte. -/
def partition (sep : UInt8) (b : Bytes) : Bytes × Bytes × Bytes :=
  (b.takeWhile (· ≠ sep), (b.dropWhile (· ≠ sep)).take 1, (b.dropWhile (· ≠ sep)).drop 1)

/-- `b"bytes"`. -/
def bytesUnit : Bytes := [98, 121, 116, 101, 115]

/-- The body of the `try`: the two words around the dash, for a file that is not empty. -/
def rangeOfParts (limit : Nat) (start_b end_b : Bytes) (size : Nat) : Except ValueError Parsed :=
  if start_b = [] then
    -- Suffix range: the last `n` bytes.
    if end_b = [] then .ok .ignored
    else do
      let n ← pyInt limit end_b
      if n ≤ 0 then .ok .ignored
      else .ok (.range (size - min n size) (min n size))
  else do
    let start ← pyInt limit start_b
    if start < 0 then .ok .ignored
    else if start ≥ size then .ok .unsatisfiable
    else if end_b = [] then .ok (.range start (size - start))
    else do
      let stop ← pyInt limit end_b
      if stop < start then .ok .ignored
      else .ok (.range start (min stop (size - 1) - start + 1))

/-- `_parse_range`. -/
def parseRange (limit : Nat) (header : Bytes) (size : Nat) : Except ValueError Parsed :=
  let (unit, _, spec) := partition 61 (strip header)
  if Bytes.lower unit ≠ bytesUnit ∨ spec = [] then .ok .ignored
  -- A comma: several ranges, which the writer does not speak.
  else if 44 ∈ spec then .ok .ignored
  else
    let (start_b, sep, end_b) := partition 45 spec
    if sep = [] then .ok .ignored
    else if size = 0 then .ok .unsatisfiable
    else tryCatch (rangeOfParts limit start_b end_b size) fun _ => .ok .ignored

/-- `bytes=-5000` on a file of 1000 bytes is the whole file. -/
example : parseRange 4300 [98, 121, 116, 101, 115, 61, 45, 53, 48, 48, 48] 1000 =
    .ok (.range 0 1000) := by
  decide

/-! ## Byte ranges -/

/-- A single byte range: `first-last`, `first-`, or `-n`. -/
inductive ByteRange where
  | closed (first last : Nat)
  | onward (first : Nat)
  | suffix (n : Nat)
  deriving DecidableEq, Repr

/-- Byte `i` of a file of `size` bytes is in the range. -/
def ByteRange.Selects (size i : Nat) : ByteRange → Prop
  | closed first last => first ≤ i ∧ i ≤ last ∧ i < size
  | onward first => first ≤ i ∧ i < size
  | suffix n => i < size ∧ size ≤ i + n

/-- The number that a word of decimal digits stands for. -/
def value (b : Bytes) : Nat := b.foldl (fun n x => n * 10 + (x - 48).toNat) 0

/-- `b` is the decimal numeral of `n`: digits only, at least one. -/
structure Numeral (b : Bytes) (n : Nat) : Prop where
  nonempty : b ≠ []
  digits : ∀ x ∈ b, Ascii.isDigit x = true
  value_eq : value b = n

/-- The range is written with `start` before the dash and `stop` behind it. -/
def ByteRange.Written (start stop : Bytes) : ByteRange → Prop
  | closed first last => Numeral start first ∧ Numeral stop last ∧ first ≤ last
  | onward first => Numeral start first ∧ stop = []
  | suffix n => start = [] ∧ Numeral stop n

/-- The header is the single byte range `r`, blanks around it aside. -/
def Grammar (header : Bytes) (r : ByteRange) : Prop :=
  ∃ unit start stop, strip header = unit ++ 61 :: (start ++ 45 :: stop) ∧
    Bytes.lower unit = bytesUnit ∧ r.Written start stop

/-- What the function owes a header: it returns; an offset and a length are in the file and are
those of the range that the header names; `"unsatisfiable"` is for the ranges that select no byte;
what is not in the grammar is ignored. -/
structure Answers (header : Bytes) (size : Nat) (p : Except ValueError Parsed) : Prop where
  returns : ∃ v, p = .ok v
  range : ∀ offset length, p = .ok (.range offset length) →
    0 ≤ offset ∧ 1 ≤ length ∧ offset + length ≤ size ∧ ∃ r, Grammar header r ∧
      ∀ i : Nat, (offset ≤ (i : Int) ∧ (i : Int) < offset + length) ↔ r.Selects size i
  unsatisfiable : p = .ok .unsatisfiable ↔ ∃ r, Grammar header r ∧ ∀ i, ¬ r.Selects size i
  ignored : (∀ r, ¬ Grammar header r) → p = .ok .ignored

/-! ## The words of a header -/

theorem partition_append {sep : UInt8} {x : Bytes} (y : Bytes) (hx : sep ∉ x) :
    partition sep (x ++ sep :: y) = (x, [sep], y) := by
  have hall : ∀ z ∈ x, (decide (z ≠ sep)) = true := by
    intro z hz
    exact decide_eq_true fun heq => hx (heq ▸ hz)
  rw [partition, List.takeWhile_append_of_pos hall, List.dropWhile_append_of_pos hall]
  simp

theorem partition_of_not_mem {sep : UInt8} {b : Bytes} (hb : sep ∉ b) :
    partition sep b = (b, [], []) := by
  have hall : ∀ z ∈ b, (decide (z ≠ sep)) = true := by
    intro z hz
    exact decide_eq_true fun heq => hb (heq ▸ hz)
  rw [partition, List.takeWhile_eq_self_iff.mpr hall, List.dropWhile_eq_nil_iff.mpr hall]
  rfl

/-- Lower case leaves the equals sign alone, so the unit holds none. -/
theorem equals_not_mem_unit {unit : Bytes} (h : Bytes.lower unit = bytesUnit) : 61 ∉ unit := by
  intro hmem
  have hlow : (61 : UInt8) ∈ Bytes.lower unit := List.mem_map.mpr ⟨61, hmem, rfl⟩
  rw [h] at hlow
  exact absurd hlow (by decide)

/-- The unit, then the equals sign, then a text without a comma that is `start` up to its first
dash and `stop` behind it. -/
def Presents (header start stop : Bytes) : Prop :=
  ∃ unit, strip header = unit ++ 61 :: (start ++ 45 :: stop) ∧ Bytes.lower unit = bytesUnit ∧
    45 ∉ start ∧ 44 ∉ start ++ 45 :: stop

theorem Presents.partition_eq {header start stop : Bytes} (h : Presents header start stop) :
    ∃ unit, Bytes.lower unit = bytesUnit ∧
      partition 61 (strip header) = (unit, [61], start ++ 45 :: stop) ∧
      partition 45 (start ++ 45 :: stop) = (start, [45], stop) ∧ 44 ∉ start ++ 45 :: stop := by
  obtain ⟨unit, hstrip, hunit, hdash, hcomma⟩ := h
  refine ⟨unit, hunit, ?_, partition_append stop hdash, hcomma⟩
  rw [hstrip]
  exact partition_append _ (equals_not_mem_unit hunit)

/-- A header is presented in one way only. -/
theorem Presents.unique {header start stop start' stop' : Bytes} (h : Presents header start stop)
    (h' : Presents header start' stop') : start = start' ∧ stop = stop' := by
  obtain ⟨unit, -, houter, hinner, -⟩ := h.partition_eq
  obtain ⟨unit', -, houter', hinner', -⟩ := h'.partition_eq
  have hspec : start ++ 45 :: stop = start' ++ 45 :: stop' := by
    rw [houter] at houter'
    simp only [Prod.mk.injEq, true_and] at houter'
    exact houter'.2
  rw [hspec, hinner'] at hinner
  simp only [Prod.mk.injEq, true_and] at hinner
  exact ⟨hinner.1.symm, hinner.2.symm⟩

/-- What the `except ValueError` makes of the `try`. -/
def caught : Except ValueError Parsed → Parsed
  | .ok v => v
  | .error _ => .ignored

@[simp] theorem caught_ok (v : Parsed) : caught (.ok v) = v := rfl

@[simp] theorem caught_ok_bind (n : Int) (f : Int → Except ValueError Parsed) :
    caught (Except.ok n >>= f) = caught (f n) := rfl

@[simp] theorem caught_error_bind (e : ValueError) (f : Int → Except ValueError Parsed) :
    caught (Except.error e >>= f) = .ignored := rfl

theorem tryCatch_eq_caught (p : Except ValueError Parsed) :
    (tryCatch p fun _ => .ok .ignored) = .ok (caught p) := by
  cases p with
  | ok v => rfl
  | error e => rfl

theorem parseRange_of_presents {header start stop : Bytes} (limit size : Nat)
    (h : Presents header start stop) :
    parseRange limit header size =
      if size = 0 then
        .ok .unsatisfiable else .ok (caught (rangeOfParts limit start stop size)) := by
  obtain ⟨unit, hunit, houter, hinner, hcomma⟩ := h.partition_eq
  unfold parseRange
  rw [houter]
  simp only [hunit, ne_eq, not_true_eq_false, List.append_eq_nil_iff, and_false,
    or_self, if_false, hcomma, hinner, List.cons_ne_nil, tryCatch_eq_caught]

/-- A header that presents no range is ignored. -/
theorem parseRange_of_not_presents {header : Bytes} (limit size : Nat)
    (h : ∀ start stop, ¬ Presents header start stop) :
    parseRange limit header size = .ok .ignored := by
  unfold parseRange
  by_cases hequals : 61 ∈ strip header
  · obtain ⟨unit, spec, hstrip, hnot⟩ := List.eq_append_cons_of_mem hequals
    rw [hstrip, partition_append spec hnot]
    by_cases hunit : Bytes.lower unit = bytesUnit
    · by_cases hcomma : 44 ∈ spec
      · simp [hcomma]
      · -- No comma behind the right unit: what is missing is the dash.
        have hdash : 45 ∉ spec := by
          intro hmem
          obtain ⟨start, stop, rfl, hstart⟩ := List.eq_append_cons_of_mem hmem
          exact h start stop ⟨unit, hstrip, hunit, hstart, hcomma⟩
        simp [hcomma, partition_of_not_mem hdash]
    · simp [hunit]
  · rw [partition_of_not_mem hequals]
    simp

/-! ## Numerals -/

theorem Numeral.unique {b : Bytes} {n m : Nat} (h : Numeral b n) (h' : Numeral b m) : n = m := by
  rw [← h.value_eq, ← h'.value_eq]

theorem Numeral.not_mem {b : Bytes} {n : Nat} (h : Numeral b n) {x : UInt8}
    (hx : Ascii.isDigit x = false) : x ∉ b := by
  intro hmem
  rw [h.digits x hmem] at hx
  exact absurd hx (by decide)

/-- On digits alone the reader of `int` computes the value, whatever it has read before. -/
theorem digits_of_isDigit (b : Bytes) (h : ∀ x ∈ b, Ascii.isDigit x = true) (acc : Nat) :
    Bytes.digits b true acc = some (b.foldl (fun n x => n * 10 + (x - 48).toNat) acc) := by
  induction b generalizing acc with
  | nil => rfl
  | cons x rest ih =>
    have hx := h x List.mem_cons_self
    have hunderscore : x ≠ 95 := by
      rintro rfl
      exact absurd hx (by decide)
    rw [Bytes.digits, if_neg hunderscore, if_pos hx, List.foldl_cons]
    exact ih (fun y hy => h y (List.mem_cons_of_mem _ hy)) _

/-- The digits of a numeral are read as its number. -/
theorem Numeral.digits_eq {b : Bytes} {n : Nat} (h : Numeral b n) :
    Bytes.digits b false 0 = some n := by
  have hfrom : Bytes.digits b false 0 = Bytes.digits b true 0 := by
    cases b with
    | nil => exact absurd rfl h.nonempty
    | cons x rest =>
      have hunderscore : x ≠ 95 := by
        rintro rfl
        exact h.not_mem rfl List.mem_cons_self
      simp only [Bytes.digits, if_neg hunderscore]
  rw [hfrom, digits_of_isDigit b h.digits 0]
  exact congrArg some h.value_eq

theorem isSpace_of_isDigit {x : UInt8} (h : Ascii.isDigit x = true) : Bytes.isSpace x = false := by
  simp only [Ascii.isDigit, Bytes.isSpace, decide_eq_true_eq, decide_eq_false_iff_not] at h ⊢
  rintro (rfl | ⟨-, hle⟩)
  · exact absurd h (by decide)
  · exact absurd (UInt8.le_trans h.1 hle) (by decide)

/-- A numeral has no blanks around it to drop. -/
theorem Numeral.strip_eq {b : Bytes} {n : Nat} (h : Numeral b n) : strip b = b := by
  have hfront : b.dropWhile Bytes.isSpace = b := by
    apply List.dropWhile_eq_self_iff.mpr
    intro hpos hspace
    rw [isSpace_of_isDigit (h.digits _ (List.getElem_mem hpos))] at hspace
    exact absurd hspace (by decide)
  rw [strip, hfront]
  apply List.rdropWhile_eq_self_iff.mpr
  intro hne hspace
  rw [isSpace_of_isDigit (h.digits _ (List.getLast_mem hne))] at hspace
  exact absurd hspace (by decide)

theorem Numeral.int_eq {b : Bytes} {n : Nat} (h : Numeral b n) : Bytes.int b = some (n : Int) := by
  have hdigits := h.digits_eq
  rw [Bytes.int, h.strip_eq]
  -- Neither sign is a digit, so only the branch without one is left.
  split
  · exact absurd List.mem_cons_self (h.not_mem (x := 43) rfl)
  · exact absurd List.mem_cons_self (h.not_mem (x := 45) rfl)
  · rw [hdigits]
    rfl

theorem Numeral.pyInt_eq {b : Bytes} {n : Nat} (limit : Nat) (h : Numeral b n) :
    pyInt limit b = if Exceeds limit b then .error .exceedsLimit else .ok (n : Int) := by
  simp only [pyInt, h.int_eq]

theorem pyInt_nil (limit : Nat) : pyInt limit [] = .error .invalidLiteral := rfl

/-! ## What is in the grammar -/

/-- A range is written in one way only. -/
theorem ByteRange.Written.unique {start stop : Bytes} {r r' : ByteRange}
    (h : r.Written start stop) (h' : r'.Written start stop) : r = r' := by
  cases r with
  | closed first last =>
    obtain ⟨hstart, hstop, -⟩ := h
    cases r' with
    | closed first' last' => rw [hstart.unique h'.1, hstop.unique h'.2.1]
    | onward first' => exact absurd h'.2 hstop.nonempty
    | suffix n' => exact absurd h'.1 hstart.nonempty
  | onward first =>
    obtain ⟨hstart, hstop⟩ := h
    cases r' with
    | closed first' last' => exact absurd hstop h'.2.1.nonempty
    | onward first' => rw [hstart.unique h'.1]
    | suffix n' => exact absurd h'.1 hstart.nonempty
  | suffix n =>
    obtain ⟨hstart, hstop⟩ := h
    cases r' with
    | closed first' last' => exact absurd hstart h'.1.nonempty
    | onward first' => exact absurd hstart h'.1.nonempty
    | suffix n' => rw [hstop.unique h'.2]

/-- A written range holds digits and its one dash. -/
theorem ByteRange.Written.not_mem {start stop : Bytes} {r : ByteRange}
    (h : r.Written start stop) {x : UInt8} (hx : Ascii.isDigit x = false) :
    x ∉ start ∧ x ∉ stop := by
  cases r with
  | closed first last => exact ⟨h.1.not_mem hx, h.2.1.not_mem hx⟩
  | onward first => exact ⟨h.1.not_mem hx, by rw [h.2]; exact List.not_mem_nil⟩
  | suffix n => exact ⟨by rw [h.1]; exact List.not_mem_nil, h.2.not_mem hx⟩

/-- A header has a range exactly if it presents what is written for one. -/
theorem grammar_iff {header : Bytes} {r : ByteRange} :
    Grammar header r ↔ ∃ start stop, Presents header start stop ∧ r.Written start stop := by
  constructor
  · rintro ⟨unit, start, stop, hstrip, hunit, hwritten⟩
    have hdash : 45 ∉ start := (hwritten.not_mem (x := 45) rfl).1
    have hcomma := hwritten.not_mem (x := 44) rfl
    refine ⟨start, stop, ⟨unit, hstrip, hunit, hdash, ?_⟩, hwritten⟩
    simp [hcomma.1, hcomma.2]
  · rintro ⟨start, stop, ⟨unit, hstrip, hunit, -, -⟩, hwritten⟩
    exact ⟨unit, start, stop, hstrip, hunit, hwritten⟩

theorem Presents.grammar_iff {header start stop : Bytes} (h : Presents header start stop)
    {r : ByteRange} : Grammar header r ↔ r.Written start stop := by
  rw [Static.grammar_iff]
  constructor
  · rintro ⟨start', stop', h', hwritten⟩
    obtain ⟨rfl, rfl⟩ := h.unique h'
    exact hwritten
  · intro hwritten
    exact ⟨start, stop, h, hwritten⟩

theorem Grammar.unique {header : Bytes} {r r' : ByteRange} (h : Grammar header r)
    (h' : Grammar header r') : r = r' := by
  obtain ⟨start, stop, hpresents, hwritten⟩ := Static.grammar_iff.mp h
  exact hwritten.unique (hpresents.grammar_iff.mp h')

/-! ## Which answers are right -/

/-- The header may be ignored exactly if every range that it has selects something. -/
theorem answers_ignored_iff {header : Bytes} {size : Nat} :
    Answers header size (.ok .ignored) ↔ ∀ r, Grammar header r → ∃ i, r.Selects size i := by
  constructor
  · intro h r hr
    apply Classical.byContradiction
    intro hnone
    exact absurd (h.unsatisfiable.mpr ⟨r, hr, fun i hi => hnone ⟨i, hi⟩⟩) (by simp)
  · intro h
    refine ⟨⟨_, rfl⟩, by simp, ⟨by simp, ?_⟩, fun _ => rfl⟩
    rintro ⟨r, hr, hnone⟩
    obtain ⟨i, hi⟩ := h r hr
    exact absurd hi (hnone i)

theorem answers_unsatisfiable_iff {header : Bytes} {size : Nat} :
    Answers header size (.ok .unsatisfiable) ↔ ∃ r, Grammar header r ∧ ∀ i, ¬ r.Selects size i := by
  constructor
  · intro h
    exact h.unsatisfiable.mp rfl
  · rintro ⟨r, hr, hnone⟩
    refine ⟨⟨_, rfl⟩, by simp, ⟨fun _ => ⟨r, hr, hnone⟩, fun _ => rfl⟩, ?_⟩
    intro hno
    exact absurd hr (hno r)

/-- The answer with a range selects the bytes of one in the header, and they are in the file. -/
theorem answers_range_iff {header : Bytes} {size : Nat} {offset length : Int} :
    Answers header size (.ok (.range offset length)) ↔
      0 ≤ offset ∧ 1 ≤ length ∧ offset + length ≤ size ∧ ∃ r, Grammar header r ∧
        ∀ i : Nat, (offset ≤ (i : Int) ∧ (i : Int) < offset + length) ↔ r.Selects size i := by
  constructor
  · intro h
    exact h.range offset length rfl
  · rintro ⟨hoffset, hlength, hfits, r, hr, hselects⟩
    refine ⟨⟨_, rfl⟩, ?_, ⟨by simp, ?_⟩, fun hno => absurd hr (hno r)⟩
    · intro offset' length' heq
      simp only [Except.ok.injEq, Parsed.range.injEq] at heq
      obtain ⟨rfl, rfl⟩ := heq
      exact ⟨hoffset, hlength, hfits, r, hr, hselects⟩
    · -- The byte at the offset is selected, so the range is satisfiable.
      rintro ⟨r', hr', hnone⟩
      rw [hr'.unique hr] at hnone
      exact absurd ((hselects offset.toNat).mp (by omega)) (hnone offset.toNat)

/-! ## The two words -/

/-- What `int` reads from the two words is taken for a range: a positive suffix, or a first position
from which on there is nothing left, with no last position or with one that is not before it. -/
def Lenient (limit : Nat) (start stop : Bytes) (size : Nat) : Prop :=
  (start = [] ∧ ∃ n, pyInt limit stop = .ok n ∧ 0 < n) ∨
  (start ≠ [] ∧ ∃ first, pyInt limit start = .ok first ∧ 0 ≤ first ∧
    ((size : Int) ≤ first ∨ stop = [] ∨ ∃ last, pyInt limit stop = .ok last ∧ first ≤ last))

/-- The words are ignored exactly where `int` makes no range of them. -/
theorem caught_eq_ignored_iff (limit : Nat) (start stop : Bytes) (size : Nat) :
    caught (rangeOfParts limit start stop size) = .ignored ↔ ¬ Lenient limit start stop size := by
  unfold rangeOfParts Lenient
  by_cases hstart : start = []
  -- no first position: the suffix length decides
  · by_cases hstop : stop = []
    · simp [hstart, hstop, pyInt_nil, caught]
    · cases pyInt limit stop with
      | error e => simp [hstart, hstop]
      | ok n =>
        by_cases hpos : n ≤ 0
        · simp [hstart, hstop, hpos, Int.not_lt.mpr hpos]
        · simp [hstart, hstop, hpos, Int.not_le.mp hpos]
  -- with a first position, which is compared with the size before the last one is read
  · cases pyInt limit start with
    | error e => simp [hstart]
    | ok first =>
      by_cases hneg : first < 0
      · simp [hstart, hneg, Int.not_le.mpr hneg]
      · by_cases hpast : (size : Int) ≤ first
        · simp [hstart, hneg, hpast, Int.not_lt.mp hneg]
        · by_cases hstop : stop = []
          · simp [hstart, hneg, hpast, hstop, Int.not_lt.mp hneg]
          · cases pyInt limit stop with
            | error e => simp [hstart, hneg, hpast, hstop]
            | ok last =>
              by_cases hinverted : last < first
              · simp [hstart, hneg, hpast, hstop, hinverted, Int.not_le.mpr hinverted]
              · simp [hstart, hneg, hpast, hstop, hinverted, Int.not_lt.mp hneg,
                  Int.not_lt.mp hinverted]

/-- What the parts of a suffix come to. -/
theorem caught_suffix {stop : Bytes} {n : Nat} (limit size : Nat) (h : Numeral stop n) :
    caught (rangeOfParts limit [] stop size) =
      if Exceeds limit stop ∨ n = 0 then .ignored
      else .range (size - min (n : Int) size) (min (n : Int) size) := by
  unfold rangeOfParts
  rw [if_pos rfl, if_neg h.nonempty, h.pyInt_eq limit]
  by_cases hexceeds : Exceeds limit stop
  · simp [hexceeds]
  · by_cases hzero : n = 0
    · simp [hexceeds, hzero]
    · simp [hexceeds, hzero]

/-- What the parts of a range with a first position come to. -/
theorem caught_first {start : Bytes} {first : Nat} (limit : Nat) (stop : Bytes) (size : Nat)
    (h : Numeral start first) :
    caught (rangeOfParts limit start stop size) =
      if Exceeds limit start then .ignored
      else if size ≤ first then .unsatisfiable
      else if stop = [] then .range first (size - first)
      else match pyInt limit stop with
        | .error _ => .ignored
        | .ok last =>
          if last < first then .ignored else .range first (min last (size - 1) - first + 1) := by
  unfold rangeOfParts
  rw [if_neg h.nonempty, h.pyInt_eq limit]
  -- too long a numeral raises, and the header is ignored
  by_cases hexceeds : Exceeds limit start
  · simp [hexceeds]
  · have hneg : ¬ (first : Int) < 0 := by omega
    by_cases hpast : size ≤ first
    · simp [hexceeds, hneg, hpast]
    · by_cases hstop : stop = []
      · simp [hexceeds, hneg, hpast, hstop]
      · cases pyInt limit stop with
        | error e => simp [hexceeds, hneg, hpast, hstop]
        | ok last =>
          by_cases hinverted : last < first
          -- the last position is below the first, or the range is cut at the size
          · simp [hexceeds, hneg, hpast, hstop, hinverted]
          · simp [hexceeds, hneg, hpast, hstop, hinverted]

/-! ## Headers in the grammar -/

section Written

variable {header start stop : Bytes} {r : ByteRange} {size : Nat}

theorem Grammar.answers_ignored_iff (hr : Grammar header r) :
    Answers header size (.ok .ignored) ↔ ∃ i, r.Selects size i := by
  rw [Static.answers_ignored_iff]
  constructor
  · intro h
    exact h r hr
  · intro h r' hr'
    rw [hr'.unique hr]
    exact h

theorem Grammar.answers_unsatisfiable_iff (hr : Grammar header r) :
    Answers header size (.ok .unsatisfiable) ↔ ¬ ∃ i, r.Selects size i := by
  rw [Static.answers_unsatisfiable_iff]
  constructor
  · rintro ⟨r', hr', hnone⟩ ⟨i, hi⟩
    rw [hr.unique hr'] at hi
    exact hnone i hi
  · intro h
    exact ⟨r, hr, fun i hi => h ⟨i, hi⟩⟩

theorem ByteRange.exists_closed_iff {first last : Nat} (hle : first ≤ last) :
    (∃ i, (closed first last).Selects size i) ↔ first < size := by
  constructor
  · rintro ⟨i, hfirst, -, hi⟩
    omega
  · intro hfirst
    exact ⟨first, Nat.le_refl first, hle, hfirst⟩

theorem ByteRange.exists_onward_iff {first : Nat} :
    (∃ i, (onward first).Selects size i) ↔ first < size := by
  constructor
  · rintro ⟨i, hfirst, hi⟩
    omega
  · intro hfirst
    exact ⟨first, Nat.le_refl first, hfirst⟩

theorem ByteRange.exists_suffix_iff {n : Nat} (hsize : size ≠ 0) :
    (∃ i, (suffix n).Selects size i) ↔ n ≠ 0 := by
  constructor
  · rintro ⟨i, hi, hlast⟩
    omega
  · intro hn
    exact ⟨size - 1, by omega, by omega⟩

/-- A suffix is answered unless it is of no bytes: that one is unsatisfiable, not to be ignored. -/
theorem answers_suffix_iff (limit : Nat) {n : Nat} (hr : Grammar header (.suffix n))
    (hstop : Numeral stop n) (hsize : size ≠ 0) :
    Answers header size (.ok (caught (rangeOfParts limit [] stop size))) ↔ n ≠ 0 := by
  rw [caught_suffix limit size hstop]
  split
  next =>
    rw [hr.answers_ignored_iff, ByteRange.exists_suffix_iff hsize]
  next hread =>
    have hn : n ≠ 0 := fun heq => hread (Or.inr heq)
    simp only [hn, ne_eq, not_false_eq_true, iff_true]
    apply answers_range_iff.mpr
    refine ⟨by omega, by omega, by omega, _, hr, ?_⟩
    intro i
    simp only [ByteRange.Selects]
    omega

/-- An open range is answered rightly exactly if it selects something or its number can be read. -/
theorem answers_onward_iff (limit : Nat) {first : Nat} (hr : Grammar header (.onward first))
    (hstart : Numeral start first) :
    Answers header size (.ok (caught (rangeOfParts limit start [] size))) ↔
      first < size ∨ ¬ Exceeds limit start := by
  rw [caught_first limit [] size hstart, if_pos rfl]
  split
  next hexceeds =>
    rw [hr.answers_ignored_iff, ByteRange.exists_onward_iff]
    simp [hexceeds]
  next hread =>
    simp only [hread, not_false_eq_true, or_true, iff_true]
    split
    next hpast =>
      rw [hr.answers_unsatisfiable_iff, ByteRange.exists_onward_iff]
      omega
    next hin =>
      apply answers_range_iff.mpr
      refine ⟨by omega, by omega, by omega, _, hr, ?_⟩
      intro i
      simp only [ByteRange.Selects]
      omega

/-- A closed range is answered rightly exactly if it selects something or its number can be read. -/
theorem answers_closed_iff (limit : Nat) {first last : Nat}
    (hr : Grammar header (.closed first last)) (hstart : Numeral start first)
    (hstop : Numeral stop last) (hle : first ≤ last) :
    Answers header size (.ok (caught (rangeOfParts limit start stop size))) ↔
      first < size ∨ ¬ Exceeds limit start := by
  rw [caught_first limit stop size hstart, if_neg hstop.nonempty, hstop.pyInt_eq limit]
  split
  -- the first position is not converted: only an unsatisfiable range may be ignored
  next hexceeds =>
    rw [hr.answers_ignored_iff, ByteRange.exists_closed_iff hle]
    simp [hexceeds]
  next hread =>
    simp only [hread, not_false_eq_true, or_true, iff_true]
    split
    -- the first position is behind the file
    next hpast =>
      rw [hr.answers_unsatisfiable_iff, ByteRange.exists_closed_iff hle]
      omega
    next hin =>
      by_cases hexceeds : Exceeds limit stop
      · -- The last position is not converted: a satisfiable range is ignored.
        simp only [hexceeds, if_true]
        rw [hr.answers_ignored_iff, ByteRange.exists_closed_iff hle]
        omega
      · have hordered : ¬ (last : Int) < first := by omega
        simp only [hexceeds, hordered, if_false]
        apply answers_range_iff.mpr
        refine ⟨by omega, by omega, by omega, _, hr, ?_⟩
        intro i
        simp only [ByteRange.Selects]
        omega

/-- In the grammar and on a file that is not empty: right unless the range selects no byte and its
first position is missing or too long to be converted. -/
theorem answers_written_iff (limit : Nat) (h : Presents header start stop)
    (hr : r.Written start stop) (hsize : size ≠ 0) :
    Answers header size (.ok (caught (rangeOfParts limit start stop size))) ↔
      (∃ i, r.Selects size i) ∨ (start ≠ [] ∧ ¬ Exceeds limit start) := by
  have hgrammar : Grammar header r := h.grammar_iff.mpr hr
  cases r with
  | closed first last =>
    obtain ⟨hstart, hstop, hle⟩ := hr
    rw [answers_closed_iff limit hgrammar hstart hstop hle, ByteRange.exists_closed_iff hle]
    simp [hstart.nonempty]
  | onward first =>
    obtain ⟨hstart, rfl⟩ := hr
    rw [answers_onward_iff limit hgrammar hstart, ByteRange.exists_onward_iff]
    simp [hstart.nonempty]
  | suffix n =>
    obtain ⟨rfl, hstop⟩ := hr
    rw [answers_suffix_iff limit hgrammar hstop hsize, ByteRange.exists_suffix_iff hsize]
    simp

end Written

/-! ## All headers -/

/-- Two words that are a range select a byte or have a first position that is converted, unless the
file is empty; two words that are none are not read as one, and the file is not empty. -/
def Sound (limit : Nat) (header : Bytes) (size : Nat) : Prop :=
  ∀ start stop, Presents header start stop →
    (∀ r : ByteRange, r.Written start stop →
      size = 0 ∨ (∃ i, r.Selects size i) ∨ (start ≠ [] ∧ ¬ Exceeds limit start)) ∧
    ((∀ r : ByteRange, ¬ r.Written start stop) → size ≠ 0 ∧ ¬ Lenient limit start stop size)

/-- No word outside the grammar may be answered: what `int` makes a range of is the exception. -/
theorem answers_not_written_iff {header start stop : Bytes} (limit : Nat) {size : Nat}
    (h : Presents header start stop) (hno : ∀ r : ByteRange, ¬ r.Written start stop) :
    Answers header size (.ok (caught (rangeOfParts limit start stop size))) ↔
      ¬ Lenient limit start stop size := by
  have hgrammar : ∀ r, ¬ Grammar header r := by
    intro r hr
    exact hno r (h.grammar_iff.mp hr)
  rw [← caught_eq_ignored_iff]
  constructor
  · intro hanswers
    simpa using hanswers.ignored hgrammar
  · intro heq
    rw [heq]
    apply answers_ignored_iff.mpr
    intro r hr
    exact absurd hr (hgrammar r)

/-- For an empty file, 416 is right exactly if a range is written. -/
theorem answers_empty_iff {header start stop : Bytes} (h : Presents header start stop) :
    Answers header 0 (.ok .unsatisfiable) ↔ ∃ r : ByteRange, r.Written start stop := by
  rw [answers_unsatisfiable_iff]
  constructor
  · rintro ⟨r, hr, -⟩
    exact ⟨r, h.grammar_iff.mp hr⟩
  · rintro ⟨r, hr⟩
    refine ⟨r, h.grammar_iff.mpr hr, ?_⟩
    intro i hi
    cases r with
    | closed first last => exact absurd hi.2.2 (Nat.not_lt_zero i)
    | onward first => exact absurd hi.2 (Nat.not_lt_zero i)
    | suffix n => exact absurd hi.1 (Nat.not_lt_zero i)

/-- A header shows its two words in one way only. -/
theorem Presents.sound_iff {header start stop : Bytes} (h : Presents header start stop)
    (limit size : Nat) :
    Sound limit header size ↔
      (∀ r : ByteRange, r.Written start stop →
        size = 0 ∨ (∃ i, r.Selects size i) ∨ (start ≠ [] ∧ ¬ Exceeds limit start)) ∧
      ((∀ r : ByteRange, ¬ r.Written start stop) →
        size ≠ 0 ∧ ¬ Lenient limit start stop size) := by
  constructor
  · intro hall
    exact hall start stop h
  · intro hone start' stop' h'
    obtain ⟨rfl, rfl⟩ := h.unique h'
    exact hone

/-- A header of the grammar is answered rightly exactly under the condition of `Sound`. -/
theorem Grammar.answers_iff {header : Bytes} {r : ByteRange} (limit size : Nat)
    (hr : Grammar header r) :
    Answers header size (parseRange limit header size) ↔ Sound limit header size := by
  obtain ⟨start, stop, h, hwritten⟩ := Static.grammar_iff.mp hr
  have hsome : ∃ r' : ByteRange, r'.Written start stop := ⟨r, hwritten⟩
  have hnot : ¬ ∀ r' : ByteRange, ¬ r'.Written start stop := fun hno => hno r hwritten
  rw [parseRange_of_presents limit size h, h.sound_iff limit size]
  by_cases hsize : size = 0
  · subst hsize
    simp only [if_true, true_or, implies_true, true_and, answers_empty_iff h, hsome, hnot,
      false_implies]
  · rw [if_neg hsize, answers_written_iff limit h hwritten hsize]
    constructor
    · intro hright
      refine ⟨?_, fun hno => absurd hno hnot⟩
      intro r' hr'
      rw [hr'.unique hwritten]
      exact Or.inr hright
    · intro hall
      exact (hall.1 r hwritten).resolve_left hsize

/-- A header that presents no range of the grammar is answered rightly exactly under the condition
of `Sound`. -/
theorem Presents.answers_iff {header start stop : Bytes} (limit size : Nat)
    (h : Presents header start stop) (hno : ∀ r : ByteRange, ¬ r.Written start stop) :
    Answers header size (parseRange limit header size) ↔ Sound limit header size := by
  rw [parseRange_of_presents limit size h, h.sound_iff limit size]
  by_cases hsize : size = 0
  · subst hsize
    have hnone : ¬ ∃ r : ByteRange, r.Written start stop := by
      rintro ⟨r, hr⟩
      exact hno r hr
    simp only [if_true, answers_empty_iff h, hnone, false_iff]
    intro hall
    exact absurd rfl (hall.2 hno).1
  · rw [if_neg hsize, answers_not_written_iff limit h hno]
    constructor
    · intro hlenient
      exact ⟨fun r hr => absurd hr (hno r), fun _ => ⟨hsize, hlenient⟩⟩
    · intro hall
      exact (hall.2 hno).2

/-- `_parse_range` answers a header as the grammar has it exactly when the header is sound. -/
theorem parseRange_answers_iff (limit : Nat) (header : Bytes) (size : Nat) :
    Answers header size (parseRange limit header size) ↔ Sound limit header size := by
  by_cases hgrammar : ∃ r, Grammar header r
  · obtain ⟨r, hr⟩ := hgrammar
    exact hr.answers_iff limit size
  · by_cases hpresents : ∃ start stop, Presents header start stop
    · obtain ⟨start, stop, h⟩ := hpresents
      apply h.answers_iff limit size
      intro r hr
      exact hgrammar ⟨r, h.grammar_iff.mpr hr⟩
    · -- Nothing that could be a range: ignored, and rightly so.
      have hno : ∀ start stop, ¬ Presents header start stop := fun start stop h =>
        hpresents ⟨start, stop, h⟩
      rw [parseRange_of_not_presents limit size hno]
      constructor
      · intro _ start stop h
        exact absurd h (hno start stop)
      · intro _
        apply answers_ignored_iff.mpr
        intro r hr
        exact absurd ⟨r, hr⟩ hgrammar

/-- `bytes=2000-5`: no range, but the answer for a file of 1000 bytes is that it is unsatisfiable,
because the first position is compared with the size before the last one is looked at. -/
theorem inverted_unsatisfiable :
    parseRange 4300 [98, 121, 116, 101, 115, 61, 50, 48, 48, 48, 45, 53] 1000 = .ok .unsatisfiable ∧
      ¬ Answers [98, 121, 116, 101, 115, 61, 50, 48, 48, 48, 45, 53] 1000
        (parseRange 4300 [98, 121, 116, 101, 115, 61, 50, 48, 48, 48, 45, 53] 1000) := by
  have hresult : parseRange 4300 [98, 121, 116, 101, 115, 61, 50, 48, 48, 48, 45, 53] 1000 =
      .ok .unsatisfiable := by decide
  have hpresents : Presents [98, 121, 116, 101, 115, 61, 50, 48, 48, 48, 45, 53]
      [50, 48, 48, 48] [53] := ⟨bytesUnit, by decide, by decide, by decide, by decide⟩
  refine ⟨hresult, ?_⟩
  rw [hresult, answers_unsatisfiable_iff]
  rintro ⟨r, hr, -⟩
  have hwritten := hpresents.grammar_iff.mp hr
  cases r with
  | closed first last =>
    obtain ⟨hstart, hstop, hle⟩ := hwritten
    rw [← hstart.value_eq, ← hstop.value_eq] at hle
    exact absurd hle (by decide)
  | onward first => exact absurd hwritten.2 (by decide)
  | suffix n => exact absurd hwritten.1 (by decide)

end LocalPost.Http.Static
