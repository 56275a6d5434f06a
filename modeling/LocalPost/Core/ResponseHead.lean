import LocalPost.Core.Ascii
import LocalPost.Core.ListEntries
import Mathlib.Data.List.DropRight

/-!
# The head of an HTTP/1.1 response

`Derives` is the grammar: a status line, field lines, an empty line. A name is a token; a value has
no blanks around it, those that stand there belong to the line. `parse` reads a head off the front
of the bytes, and it computes the grammar (`parse_iff`), so a head can be read in one way only.

A head that is printed with one blank behind each colon reads as what was printed exactly when it is
of the grammar in each of its parts (`parse_print_iff`).
-/

set_option autoImplicit false

namespace LocalPost.Core.ResponseHead

open Ascii (crlf isDigit)

/-! ## Characters -/

/-- A character of a token: a letter, a digit, or one of the marks that are no separators. -/
def isTokenChar (x : UInt8) : Bool :=
  isDigit x || (65 ≤ x && x ≤ 90) || (97 ≤ x && x ≤ 122) ||
    [33, 35, 36, 37, 38, 39, 42, 43, 45, 46, 94, 95, 96, 124, 126].contains x

/-- A blank: `SP` or `HTAB`. -/
def isBlank (x : UInt8) : Bool := x = 32 ∨ x = 9

/-- A character of a reason or a value: a blank, `VCHAR` or `obs-text`. -/
def isText (x : UInt8) : Bool := isBlank x || (33 ≤ x && x ≤ 126) || 128 ≤ x

/-- `value` without the blanks around it. -/
def strip (value : List UInt8) : List UInt8 := (value.dropWhile isBlank).rdropWhile isBlank

/-- `token`. -/
def Token (s : List UInt8) : Prop := s ≠ [] ∧ s.all isTokenChar = true

instance (s : List UInt8) : Decidable (Token s) := inferInstanceAs (Decidable (_ ∧ _))

/-- `reason-phrase`, or nothing. -/
def Text (s : List UInt8) : Prop := s.all isText = true

instance (s : List UInt8) : Decidable (Text s) := inferInstanceAs (Decidable (_ = _))

/-- `field-value`. -/
def FieldValue (s : List UInt8) : Prop := Text s ∧ strip s = s

instance (s : List UInt8) : Decidable (FieldValue s) := inferInstanceAs (Decidable (_ ∧ _))

/-- Blanks only. -/
def Blanks (s : List UInt8) : Prop := s.all isBlank = true

theorem not_cr_of_text {s : List UInt8} (h : Text s) : (13 : UInt8) ∉ s := by
  intro hmem
  have := List.all_eq_true.1 h 13 hmem
  cases this

theorem not_cr_of_token {s : List UInt8} (h : Token s) : (13 : UInt8) ∉ s := by
  intro hmem
  have := List.all_eq_true.1 h.2 13 hmem
  cases this

theorem not_colon_of_token {s : List UInt8} (h : Token s) : (58 : UInt8) ∉ s := by
  intro hmem
  have := List.all_eq_true.1 h.2 58 hmem
  cases this

theorem text_of_blanks {s : List UInt8} (h : Blanks s) : Text s :=
  List.all_eq_true.2 fun x hx => by
    rw [isText, List.all_eq_true.1 h x hx, Bool.true_or, Bool.true_or]

theorem text_append {s t : List UInt8} : Text (s ++ t) ↔ Text s ∧ Text t := by
  rw [Text, Text, Text, List.all_append, Bool.and_eq_true]

/-! ## Blanks around a value -/

/-- Nothing is left to strip from what was stripped. -/
theorem strip_strip (w : List UInt8) : strip (strip w) = strip w := by
  have hleft : (strip w).dropWhile isBlank = strip w := by
    rw [List.dropWhile_eq_self_iff]
    intro hpos hblank
    have hprefix : strip w <+: w.dropWhile isBlank := List.rdropWhile_prefix _ _
    have hne : 0 < (w.dropWhile isBlank).length := lt_of_lt_of_le hpos hprefix.length_le
    have hhead : (strip w)[0] = (w.dropWhile isBlank)[0] := hprefix.getElem hpos
    rw [hhead] at hblank
    exact List.dropWhile_get_zero_not isBlank w hne hblank
  rw [strip, hleft]
  exact List.rdropWhile_idempotent _ _

theorem rdropWhile_append_blanks {s b : List UInt8} (hb : Blanks b) :
    (s ++ b).rdropWhile isBlank = s.rdropWhile isBlank := by
  rw [List.rdropWhile, List.rdropWhile, List.reverse_append, List.dropWhile_append_of_pos]
  intro x hx
  exact List.all_eq_true.1 hb x (List.mem_reverse.1 hx)

/-- Blanks around a value are stripped with those of the value. -/
theorem strip_blanks {a value b : List UInt8} (ha : Blanks a) (hb : Blanks b) :
    strip (a ++ value ++ b) = strip value := by
  rw [strip, List.append_assoc, List.dropWhile_append_of_pos (List.all_eq_true.1 ha),
    List.dropWhile_append]
  split
  · rename_i hempty
    -- the value is all blanks
    have hnil : value.dropWhile isBlank = [] := List.isEmpty_iff.1 hempty
    have hrest : b.dropWhile isBlank = [] := List.dropWhile_eq_nil_iff.2 (List.all_eq_true.1 hb)
    rw [strip, hnil, hrest]
  · rw [strip, rdropWhile_append_blanks hb]

/-- What is around a stripped value is blank. -/
theorem exists_blanks (w : List UInt8) :
    ∃ a b, Blanks a ∧ Blanks b ∧ w = a ++ strip w ++ b := by
  refine ⟨w.takeWhile isBlank, (w.dropWhile isBlank).rtakeWhile isBlank, ?_, ?_, ?_⟩
  · exact List.all_eq_true.2 fun x hx => List.mem_takeWhile_imp hx
  · exact List.all_eq_true.2 fun x hx => List.mem_rtakeWhile_imp hx
  · rw [List.append_assoc, strip, List.rdropWhile_append_rtakeWhile,
      List.takeWhile_append_dropWhile]

/-! ## The grammar -/

/-- A head: the status, the reason and the fields. -/
structure Head where
  status : Nat
  reason : List UInt8
  fields : List (List UInt8 × List UInt8)
  deriving DecidableEq, Repr

/-- Field lines and the empty line behind them, then anything. -/
inductive FieldLines : List UInt8 → List (List UInt8 × List UInt8) → List UInt8 → Prop where
  | done (rest : List UInt8) : FieldLines (crlf ++ rest) [] rest
  | field {name a value b bytes rest : List UInt8} {fields : List (List UInt8 × List UInt8)}
      (hname : Token name) (ha : Blanks a) (hvalue : FieldValue value) (hb : Blanks b)
      (hrest : FieldLines bytes fields rest) :
      FieldLines (name ++ 58 :: (a ++ value ++ b) ++ (crlf ++ bytes)) ((name, value) :: fields) rest

/-- The bytes are a head and what follows it. -/
inductive Derives : List UInt8 → Head → List UInt8 → Prop where
  | head {major minor x y z : UInt8} {reason bytes rest : List UInt8}
      {fields : List (List UInt8 × List UInt8)}
      (hversion : isDigit major = true ∧ isDigit minor = true)
      (hdigits : isDigit x = true ∧ isDigit y = true ∧ isDigit z = true)
      (hreason : Text reason) (hfields : FieldLines bytes fields rest) :
      Derives
        ([72, 84, 84, 80, 47, major, 46, minor, 32, x, y, z, 32] ++ reason ++ (crlf ++ bytes))
        ⟨(x.toNat - 48) * 100 + (y.toNat - 48) * 10 + (z.toNat - 48), reason, fields⟩ rest

/-! ## The parser -/

/-- The first line, and what follows it. -/
def line (s : List UInt8) : Option (List UInt8 × List UInt8) :=
  match s.dropWhile (· ≠ 13) with
  | 13 :: 10 :: rest => some (s.takeWhile (· ≠ 13), rest)
  | _ => none

/-- A field line. -/
def parseField (s : List UInt8) : Option (List UInt8 × List UInt8) :=
  match s.dropWhile (· ≠ 58) with
  | 58 :: value =>
    if Token (s.takeWhile (· ≠ 58)) ∧ Text value then some (s.takeWhile (· ≠ 58), strip value)
    else none
  | _ => none

/-- The field lines, at most `fuel` of them with the empty one. -/
def parseFields : Nat → List UInt8 → Option (List (List UInt8 × List UInt8) × List UInt8)
  | 0, _ => none
  | fuel + 1, s =>
    (line s).bind fun (first, rest) =>
      if first = [] then some ([], rest)
      else (parseField first).bind fun field =>
        (parseFields fuel rest).map fun (fields, rest) => (field :: fields, rest)

/-- The status line. -/
def parseStatusLine : List UInt8 → Option (Nat × List UInt8)
  | 72 :: 84 :: 84 :: 80 :: 47 :: major :: 46 :: minor :: 32 :: x :: y :: z :: 32 :: reason =>
    if (isDigit major ∧ isDigit minor) ∧ (isDigit x ∧ isDigit y ∧ isDigit z) ∧ Text reason then
      some ((x.toNat - 48) * 100 + (y.toNat - 48) * 10 + (z.toNat - 48), reason)
    else none
  | _ => none

/-- The head at the front of the bytes, and the rest. Every line takes a byte, so the fuel is
enough. -/
def parse (s : List UInt8) : Option (Head × List UInt8) :=
  (line s).bind fun (first, rest) =>
    (parseStatusLine first).bind fun (status, reason) =>
      (parseFields (rest.length + 1) rest).map fun (fields, rest) =>
        (⟨status, reason, fields⟩, rest)

/-! ## The parser computes the grammar -/

theorem line_append {s rest : List UInt8} (h : (13 : UInt8) ∉ s) :
    line (s ++ (crlf ++ rest)) = some (s, rest) := by
  have hall : ∀ x ∈ s, decide (x ≠ 13) = true :=
    fun x hx => decide_eq_true fun heq => h (heq ▸ hx)
  rw [line, List.dropWhile_append_of_pos hall, List.takeWhile_append_of_pos hall]
  simp [crlf]

/-- A line is what stands in front of the first line end. -/
theorem line_some {s first rest : List UInt8} (h : line s = some (first, rest)) :
    s = first ++ (crlf ++ rest) ∧ (13 : UInt8) ∉ first := by
  rw [line] at h
  split at h
  · rename_i hdrop
    cases h
    refine ⟨?_, fun hmem => ?_⟩
    · conv_lhs => rw [← List.takeWhile_append_dropWhile (p := (· ≠ 13)) (l := s), hdrop]
      rfl
    · have := List.mem_takeWhile_imp hmem
      simp at this
  · cases h

/-- A field line is parsed into its name and its value, without the blanks around it. -/
theorem parseField_line {name a value b : List UInt8} (hname : Token name) (ha : Blanks a)
    (hvalue : FieldValue value) (hb : Blanks b) :
    parseField (name ++ 58 :: (a ++ value ++ b)) = some (name, value) := by
  have hall : ∀ x ∈ name, decide (x ≠ 58) = true :=
    fun x hx => decide_eq_true fun heq => not_colon_of_token hname (heq ▸ hx)
  have htext : Text (a ++ value ++ b) :=
    text_append.2 ⟨text_append.2 ⟨text_of_blanks ha, hvalue.1⟩, text_of_blanks hb⟩
  have htake : (name ++ 58 :: (a ++ value ++ b)).takeWhile (· ≠ 58) = name := by
    rw [List.takeWhile_append_of_pos hall]
    simp
  have hdrop : (name ++ 58 :: (a ++ value ++ b)).dropWhile (· ≠ 58) = 58 :: (a ++ value ++ b) := by
    rw [List.dropWhile_append_of_pos hall]
    simp
  rw [parseField, hdrop, htake]
  change (if Token name ∧ Text (a ++ value ++ b) then
    some (name, strip (a ++ value ++ b)) else none) = _
  rw [if_pos ⟨hname, htext⟩, strip_blanks ha hb, hvalue.2]

/-- What is parsed as a field is the line of one. -/
theorem parseField_some {s name value : List UInt8} (h : parseField s = some (name, value)) :
    ∃ a b, Token name ∧ Blanks a ∧ FieldValue value ∧ Blanks b ∧
      s = name ++ 58 :: (a ++ value ++ b) := by
  rw [parseField] at h
  split at h
  · rename_i w hdrop
    split at h
    · rename_i hok
      cases h
      obtain ⟨a, b, ha, hb, hw⟩ := exists_blanks w
      refine ⟨a, b, hok.1, ha, ⟨?_, strip_strip w⟩, hb, ?_⟩
      · have htext := hok.2
        rw [hw] at htext
        exact (text_append.1 (text_append.1 htext).1).2
      · rw [← hw, ← hdrop, List.takeWhile_append_dropWhile]
    · cases h
  · cases h

/-- Every list of field lines is parsed, with enough fuel. -/
theorem parseFields_of_fieldLines {s rest : List UInt8} {fields : List (List UInt8 × List UInt8)}
    (h : FieldLines s fields rest) {fuel : Nat} (hfuel : s.length < fuel) :
    parseFields fuel s = some (fields, rest) := by
  induction h generalizing fuel with
  | done rest =>
    -- the blank line ends the head
    obtain ⟨fuel, rfl⟩ := Nat.exists_eq_add_one_of_ne_zero (Nat.ne_of_gt (Nat.zero_lt_of_lt hfuel))
    have hline : line (crlf ++ rest) = some ([], rest) := line_append (s := []) (by simp)
    rw [parseFields, hline]
    rfl
  | @field name a value b bytes rest fields hname ha hvalue hb _ ih =>
    obtain ⟨fuel, rfl⟩ := Nat.exists_eq_add_one_of_ne_zero (Nat.ne_of_gt (Nat.zero_lt_of_lt hfuel))
    have htext : Text (a ++ value ++ b) :=
      text_append.2 ⟨text_append.2 ⟨text_of_blanks ha, hvalue.1⟩, text_of_blanks hb⟩
    -- the line of a field holds no CR, so the CR LF that ends it is the first one
    have hcr : (13 : UInt8) ∉ name ++ 58 :: (a ++ value ++ b) := by
      rw [List.mem_append, List.mem_cons]
      rintro (hmem | hcolon | hmem)
      · exact not_cr_of_token hname hmem
      · cases hcolon
      · exact not_cr_of_text htext hmem
    -- a field takes at least its colon and its line end from the fuel
    have hlength : bytes.length < fuel := by
      simp only [List.length_append, List.length_cons, crlf] at hfuel
      omega
    rw [parseFields, line_append hcr, Option.bind_some]
    change (if name ++ 58 :: (a ++ value ++ b) = [] then _ else _) = _
    rw [if_neg (by simp), parseField_line hname ha hvalue hb, Option.bind_some, ih hlength]
    rfl

/-- What is parsed is a list of field lines. -/
theorem fieldLines_of_parseFields {fuel : Nat} {s rest : List UInt8}
    {fields : List (List UInt8 × List UInt8)} (h : parseFields fuel s = some (fields, rest)) :
    FieldLines s fields rest := by
  induction fuel generalizing s fields with
  | zero => cases h
  | succ fuel ih =>
    rw [parseFields] at h
    obtain ⟨⟨first, tail⟩, hline, hnext⟩ := Option.bind_eq_some_iff.1 h
    obtain ⟨rfl, -⟩ := line_some hline
    dsimp only at hnext
    split at hnext
    · rename_i hempty
      cases hnext
      rw [hempty]
      exact .done rest
    · obtain ⟨⟨name, value⟩, hfield, hmap⟩ := Option.bind_eq_some_iff.1 hnext
      obtain ⟨⟨fields', rest'⟩, hfields, heq⟩ := Option.map_eq_some_iff.1 hmap
      cases heq
      obtain ⟨a, b, hname, ha, hvalue, hb, rfl⟩ := parseField_some hfield
      exact .field hname ha hvalue hb (ih hfields)

/-- What is parsed as a status line has the form of one. -/
theorem parseStatusLine_some {s reason : List UInt8} {status : Nat}
    (h : parseStatusLine s = some (status, reason)) :
    ∃ major minor x y z, (isDigit major = true ∧ isDigit minor = true) ∧
      (isDigit x = true ∧ isDigit y = true ∧ isDigit z = true) ∧ Text reason ∧
      s = [72, 84, 84, 80, 47, major, 46, minor, 32, x, y, z, 32] ++ reason ∧
      status = (x.toNat - 48) * 100 + (y.toNat - 48) * 10 + (z.toNat - 48) := by
  unfold parseStatusLine at h
  split at h
  · rename_i major minor x y z reason'
    split at h
    · rename_i hok
      cases h
      exact ⟨major, minor, x, y, z, hok.1, hok.2.1, hok.2.2, rfl, rfl⟩
    · cases h
  · cases h

/-- The parser takes exactly the heads of the grammar, and it reads what the grammar says. -/
theorem parse_iff {s rest : List UInt8} {head : Head} :
    parse s = some (head, rest) ↔ Derives s head rest := by
  constructor
  · intro h
    obtain ⟨⟨first, tail⟩, hline, hnext⟩ := Option.bind_eq_some_iff.1 h
    obtain ⟨⟨status, reason⟩, hstatus, hmap⟩ := Option.bind_eq_some_iff.1 hnext
    obtain ⟨⟨fields, rest'⟩, hfields, heq⟩ := Option.map_eq_some_iff.1 hmap
    cases heq
    obtain ⟨rfl, -⟩ := line_some hline
    obtain ⟨major, minor, x, y, z, hversion, hdigits, hreason, rfl, rfl⟩ :=
      parseStatusLine_some hstatus
    exact .head hversion hdigits hreason (fieldLines_of_parseFields hfields)
  · rintro ⟨hversion, hdigits, hreason, hfields⟩
    rename_i major minor x y z reason bytes fields
    -- the line end that is found is the one behind the reason
    have hcr : (13 : UInt8) ∉
        [72, 84, 84, 80, 47, major, 46, minor, 32, x, y, z, 32] ++ reason := by
      have hne : ∀ d : UInt8, isDigit d = true → (13 : UInt8) ≠ d :=
        fun d hd => (Ascii.ne_of_isDigit hd (by decide)).symm
      rw [List.mem_append]
      rintro (hmem | hmem)
      · simp [hne _ hversion.1, hne _ hversion.2, hne _ hdigits.1, hne _ hdigits.2.1,
          hne _ hdigits.2.2] at hmem
      · exact not_cr_of_text hreason hmem
    have hstatus : parseStatusLine
      ([72, 84, 84, 80, 47, major, 46, minor, 32, x, y, z, 32] ++ reason) =
        some ((x.toNat - 48) * 100 + (y.toNat - 48) * 10 + (z.toNat - 48), reason) :=
      if_pos ⟨hversion, hdigits, hreason⟩
    rw [parse, line_append hcr, Option.bind_some]
    dsimp only
    rw [hstatus, Option.bind_some, parseFields_of_fieldLines hfields (Nat.lt_succ_self _)]
    rfl

/-! ## Printing -/

/-- A field line with one blank behind the colon. -/
def printField (field : List UInt8 × List UInt8) : List UInt8 :=
  field.1 ++ [58, 32] ++ field.2 ++ crlf

/-- The field lines and the empty line. -/
def printFields (fields : List (List UInt8 × List UInt8)) : List UInt8 :=
  fields.flatMap printField ++ crlf

/-- A head, by the text of its status. -/
def print (status reason : List UInt8) (fields : List (List UInt8 × List UInt8)) : List UInt8 :=
  [72, 84, 84, 80, 47, 49, 46, 49, 32] ++ status ++ [32] ++ reason ++ crlf ++ printFields fields

/-- `3DIGIT`, and the number it stands for. -/
def StatusCode (s : List UInt8) (n : Nat) : Prop :=
  ∃ x y z, (isDigit x = true ∧ isDigit y = true ∧ isDigit z = true) ∧ s = [x, y, z] ∧
    n = (x.toNat - 48) * 100 + (y.toNat - 48) * 10 + (z.toNat - 48)

/-- Printed fields are field lines. -/
theorem fieldLines_printFields {fields : List (List UInt8 × List UInt8)}
    (h : ∀ field ∈ fields, Token field.1 ∧ FieldValue field.2) (rest : List UInt8) :
    FieldLines (printFields fields ++ rest) fields rest := by
  induction fields with
  | nil => exact .done rest
  | cons field fields ih =>
    obtain ⟨hname, hvalue⟩ := h field List.mem_cons_self
    have hrest := ih fun field' hmem => h field' (List.mem_cons_of_mem _ hmem)
    have hline := FieldLines.field (a := [32]) (b := []) hname rfl hvalue rfl hrest
    have heq : printFields (field :: fields) ++ rest = field.1 ++ 58 :: ([32] ++ field.2 ++ []) ++
        (crlf ++ (printFields fields ++ rest)) := by
      simp [printFields, printField]
    rw [heq]
    exact hline

theorem FieldLines.legal {s rest : List UInt8} {fields : List (List UInt8 × List UInt8)}
    (h : FieldLines s fields rest) : ∀ field ∈ fields, Token field.1 ∧ FieldValue field.2 := by
  induction h with
  | done rest => exact fun field hmem => by cases hmem
  | field hname _ hvalue _ _ ih =>
    intro field hmem
    rcases List.mem_cons.1 hmem with rfl | hmem
    · exact ⟨hname, hvalue⟩
    · exact ih field hmem

/-- A line has one carriage return, at its end. -/
theorem FieldLines.count_cr {s rest : List UInt8} {fields : List (List UInt8 × List UInt8)}
    (h : FieldLines s fields rest) : s.count 13 = fields.length + 1 + rest.count 13 := by
  induction h with
  | done rest => simp [crlf, Nat.add_comm]
  | field hname ha hvalue hb _ ih =>
    rw [List.count_append, List.count_append, List.count_cons, List.count_append, List.count_append,
      List.count_append, ih, List.count_eq_zero.2 (not_cr_of_token hname),
      List.count_eq_zero.2 (not_cr_of_text (text_of_blanks ha)),
      List.count_eq_zero.2 (not_cr_of_text hvalue.1),
      List.count_eq_zero.2 (not_cr_of_text (text_of_blanks hb)), List.length_cons]
    simp only [crlf, List.count_cons, List.count_nil]
    simp
    omega

/-- A printed head reads as what was printed, whatever follows it, exactly when all its parts are
legal. -/
theorem parse_print_iff {status reason rest : List UInt8} {n : Nat}
    {fields : List (List UInt8 × List UInt8)} (hblank : (32 : UInt8) ∉ status) :
    (∃ head, parse (print status reason fields ++ rest) = some (head, rest) ∧
      head.status = n ∧ head.fields = fields) ↔
      StatusCode status n ∧ Text reason ∧ ∀ field ∈ fields, Token field.1 ∧ FieldValue field.2 := by
  constructor
  · rintro ⟨head, hparse, rfl, rfl⟩
    have hderives := parse_iff.1 hparse
    generalize hs : print status reason head.fields ++ rest = s at hderives
    obtain ⟨hversion, hdigits, hreason, hfields⟩ := hderives
    rename_i major minor x y z reason' bytes fields
    have hshape : status ++ 32 :: (reason ++ 13 :: 10 :: (printFields fields ++ rest)) =
        [x, y, z] ++ 32 :: (reason' ++ 13 :: 10 :: bytes) := by
      have hcons := hs
      simp only [print, crlf, List.append_assoc, List.cons_append, List.nil_append,
        List.cons.injEq, true_and] at hcons
      simpa using hcons.2.2
    have hdigit : ∀ d : UInt8, isDigit d = true → (32 : UInt8) ≠ d :=
      fun d hd => (Ascii.ne_of_isDigit hd (by decide)).symm
    have hno : (32 : UInt8) ∉ [x, y, z] := by
      simp [hdigit _ hdigits.1, hdigit _ hdigits.2.1, hdigit _ hdigits.2.2]
    obtain ⟨hstatus, htail⟩ := eq_of_append_cons hblank hno hshape
    have hlegal := hfields.legal
    -- the lines of both sides end alike, so none ends within the reason
    have hcount := congrArg (List.count (13 : UInt8)) htail
    have hprinted := (fieldLines_printFields hlegal rest).count_cr
    simp only [List.count_append, List.count_cons] at hcount hprinted
    rw [hfields.count_cr, List.count_eq_zero.2 (not_cr_of_text hreason)] at hcount
    have hcr : (13 : UInt8) ∉ reason := by
      rw [← List.count_eq_zero]
      simp at hcount
      omega
    obtain ⟨hreason', -⟩ := eq_of_append_cons hcr (not_cr_of_text hreason) htail
    exact ⟨⟨x, y, z, hdigits, hstatus, rfl⟩, by rw [hreason']; exact hreason, hlegal⟩
  · rintro ⟨⟨x, y, z, hdigits, rfl, rfl⟩, hreason, hfields⟩
    have hversion : isDigit 49 = true ∧ isDigit 49 = true := ⟨rfl, rfl⟩
    have hderives := Derives.head hversion hdigits hreason (fieldLines_printFields hfields rest)
    have heq : print [x, y, z] reason fields ++ rest =
        [72, 84, 84, 80, 47, 49, 46, 49, 32, x, y, z, 32] ++ reason ++
          (crlf ++ (printFields fields ++ rest)) := by
      simp [print]
    rw [heq]
    exact ⟨_, parse_iff.2 hderives, rfl, rfl⟩

end LocalPost.Core.ResponseHead
