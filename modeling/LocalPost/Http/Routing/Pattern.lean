import LocalPost.Core.Regex
import LocalPost.Core.Text

/-!
# The pattern syntax of `re`

`re.compile` for the syntax that the router writes: escaped and plain letters, named groups, groups
that do not capture, alternatives, `[^x]+`, `^` and `$`. A variable name is pasted into a pattern as
it stands, so the names of a template can bring in any of these. The rest of the syntax (other
classes and quantifiers, lookaround, references, flags) is not modelled: `compile` gives `none` for
it, as it does for an error.
-/

set_option autoImplicit false

namespace LocalPost.Http.Routing

open LocalPost.Core

/-- Patterns as `re` compiles them. -/
abbrev Re := Regex Char Str

/-- What Python takes from the Unicode tables beyond ASCII: `str.upper`, and the letters that may
begin and go on in an identifier. -/
structure Unicode where
  upper : Str → Str
  idStart : Char → Bool
  idContinue : Char → Bool

namespace Unicode

variable (U : Unicode)

/-- A letter that may begin an identifier. -/
def starts (c : Char) : Bool := c = '_' || c.isAlpha || (128 ≤ c.toNat && U.idStart c)

/-- A letter that may go on in an identifier. -/
def continues (c : Char) : Bool := U.starts c || c.isDigit || (128 ≤ c.toNat && U.idContinue c)

/-- `str.isidentifier()`. -/
def isIdentifier : Str → Bool
  | [] => false
  | c :: cs => U.starts c && cs.all U.continues

end Unicode

/-- What the reader of a pattern sees one after the other: an expression for one piece of the text,
the begin of a group (`none`: it does not capture) and its end, a bar. -/
inductive Token where
  | item (r : Re)
  | openGroup (name : Option Str)
  | close
  | bar
  deriving DecidableEq, Repr

/-- Where the reader stands: between two tokens, after a backslash, after `(`, `(?`, `(?P`, inside
the name of a group, after `[`, `[^`, `[^x`, `[^x]`. -/
inductive Mode where
  | normal
  | escape
  | paren
  | question
  | letterP
  | name (read : Str)
  | bracket
  | caret
  | excluded (c : Char)
  | ended (c : Char)
  deriving DecidableEq, Repr

/-- Letters with a meaning that is not modelled. -/
def unmodelled : Str := ['.', '*', '+', '?', '{']

/-- The tokens of a pattern. -/
def lex : Mode → Str → Option (List Token)
  | .normal, [] => some []
  | _, [] => none
  | .normal, c :: cs =>
    if c = '\\' then lex .escape cs
    else if c = '(' then lex .paren cs
    else if c = '[' then lex .bracket cs
    else if c = ')' then (lex .normal cs).map (.close :: ·)
    else if c = '|' then (lex .normal cs).map (.bar :: ·)
    else if c = '^' then (lex .normal cs).map (.item .start :: ·)
    else if c = '$' then (lex .normal cs).map (.item (.finish '\n') :: ·)
    else if c ∈ unmodelled then none
    else (lex .normal cs).map (.item (.char c) :: ·)
  | .escape, c :: cs =>
    if c.isAlphanum then none else (lex .normal cs).map (.item (.char c) :: ·)
  | .paren, c :: cs => if c = '?' then lex .question cs else none
  | .question, c :: cs =>
    if c = 'P' then lex .letterP cs
    else if c = ':' then (lex .normal cs).map (.openGroup none :: ·)
    else none
  | .letterP, c :: cs => if c = '<' then lex (.name []) cs else none
  | .name read, c :: cs =>
    if c = '>' then (lex .normal cs).map (.openGroup (some read) :: ·)
    else lex (.name (read ++ [c])) cs
  | .bracket, c :: cs => if c = '^' then lex .caret cs else none
  | .caret, c :: cs => if c = ']' ∨ c = '\\' then none else lex (.excluded c) cs
  | .excluded d, c :: cs => if c = ']' then lex (.ended d) cs else none
  | .ended d, c :: cs => if c = '+' then (lex .normal cs).map (.item (.plusNot d) :: ·) else none

/-- A group that is being read: its name, the alternatives that are complete, the pieces of the one
that is not. -/
structure Frame where
  name : Option Str
  alts : List (List Re)
  items : List Re
  deriving DecidableEq, Repr

namespace Frame

/-- A group at its beginning. -/
def new (name : Option Str) : Frame := ⟨name, [], []⟩

/-- The group with more pieces. -/
def append (f : Frame) (rs : List Re) : Frame := { f with items := f.items ++ rs }

/-- The group at a bar. -/
def nextAlt (f : Frame) : Frame := { f with alts := f.alts ++ [f.items], items := [] }

/-- The group as an expression. -/
def regex (f : Frame) : Re :=
  let r := Regex.choice ((f.alts ++ [f.items]).map Regex.seq)
  match f.name with
  | none => r
  | some name => .group name r

@[simp] theorem append_append (f : Frame) (rs qs : List Re) :
    (f.append rs).append qs = f.append (rs ++ qs) := by simp [append]

@[simp] theorem append_nil (f : Frame) : f.append [] = f := by simp [append]

end Frame

/-- The expression of a list of tokens, with the groups that are open. -/
def parse : List Frame → Frame → List Token → Option Re
  | [], f, [] => some f.regex
  | _ :: _, _, [] => none
  | stack, f, .item r :: ts => parse stack (f.append [r]) ts
  | stack, f, .openGroup name :: ts => parse (f :: stack) (.new name) ts
  | [], _, .close :: _ => none
  | g :: stack, f, .close :: ts => parse stack (g.append [f.regex]) ts
  | stack, f, .bar :: ts => parse stack f.nextAlt ts

/-- The names of the groups in the order in which they begin. -/
def groupNames : List Token → List Str
  | [] => []
  | .openGroup (some name) :: ts => name :: groupNames ts
  | _ :: ts => groupNames ts

/-- `re.compile`: a group's name is an identifier and no two groups share one. -/
def compile (U : Unicode) (source : Str) : Option Re :=
  (lex .normal source).bind fun ts =>
    if (groupNames ts).all U.isIdentifier ∧ (groupNames ts).Nodup then parse [] (.new none) ts
    else none

/-- The letters that `re.escape` puts a backslash before. -/
def special : Str :=
  ['(', ')', '[', ']', '{', '}', '?', '*', '+', '-', '|', '^', '$', '\\', '.', '&', '~', '#', ' ',
    '\t', '\n', '\r', '\x0b', '\x0c']

/-- `re.escape` of one letter. -/
def escape (c : Char) : Str := if c ∈ special then ['\\', c] else [c]

/-! ## Reading what has been written -/

/-- An escaped letter is read as itself. -/
theorem lex_escape (c : Char) (rest : Str) :
    lex .normal (escape c ++ rest) = (lex .normal rest).map (.item (.char c) :: ·) := by
  unfold escape
  split
  · rename_i hc
    have hall : special.all (fun d => !d.isAlphanum) = true := by decide
    have hplain : c.isAlphanum = false := by simpa using List.all_eq_true.1 hall c hc
    rw [List.cons_append, List.cons_append, List.nil_append, lex, if_pos rfl, lex, hplain,
      if_neg Bool.false_ne_true]
  · rename_i hc
    have hall : (['\\', '(', '[', ')', '|', '^', '$'] ++ unmodelled).all
        (fun d => special.contains d) = true := by
      decide
    have hne : ∀ d ∈ ['\\', '(', '[', ')', '|', '^', '$'] ++ unmodelled, c ≠ d := by
      rintro d hd rfl
      exact hc (List.contains_iff_mem.1 (List.all_eq_true.1 hall c hd))
    have hmodelled : c ∉ unmodelled := fun hd => hne c (List.mem_append_right _ hd) rfl
    rw [List.cons_append, List.nil_append, lex, if_neg (hne _ (by simp)), if_neg (hne _ (by simp)),
      if_neg (hne _ (by simp)), if_neg (hne _ (by simp)), if_neg (hne _ (by simp)),
      if_neg (hne _ (by simp)), if_neg (hne _ (by simp)), if_neg hmodelled]

/-- A group's name is read up to its `>`. -/
theorem lex_name (name read rest : Str) (hname : '>' ∉ name) :
    lex (.name read) (name ++ '>' :: rest) =
      (lex .normal rest).map (.openGroup (some (read ++ name)) :: ·) := by
  induction name generalizing read with
  | nil => rw [List.nil_append, lex, if_pos rfl, List.append_nil]
  | cons c cs ih =>
    rw [List.mem_cons, not_or] at hname
    rw [List.cons_append, lex, if_neg (Ne.symm hname.1), ih (read ++ [c]) hname.2,
      List.append_assoc, List.singleton_append]

/-- The begin of a named group. -/
def groupStart (name : Str) : Str := ['(', '?', 'P', '<'] ++ name ++ ['>']

theorem lex_groupStart (name rest : Str) (hname : '>' ∉ name) :
    lex .normal (groupStart name ++ rest) =
      (lex .normal rest).map (.openGroup (some name) :: ·) := by
  have h := lex_name name [] rest hname
  rw [List.nil_append] at h
  rw [← h, groupStart, List.append_assoc, List.append_assoc]
  rfl

/-- `[^c]+`. -/
def plusNot (c : Char) : Str := ['[', '^', c, ']', '+']

theorem lex_slash (rest : Str) :
    lex .normal (plusNot '/' ++ rest) = (lex .normal rest).map (.item (.plusNot '/') :: ·) := rfl

theorem lex_close (rest : Str) :
    lex .normal (')' :: rest) = (lex .normal rest).map (.close :: ·) := rfl

theorem lex_bar (rest : Str) : lex .normal ('|' :: rest) = (lex .normal rest).map (.bar :: ·) := rfl

/-- The groups of two token lists are those of the one and then those of the other. -/
theorem groupNames_append (ts us : List Token) :
    groupNames (ts ++ us) = groupNames ts ++ groupNames us := by
  induction ts with
  | nil => rfl
  | cons t ts ih =>
    cases t with
    | item r => exact ih
    | openGroup name =>
      cases name with
      | none => exact ih
      | some name => rw [List.cons_append, groupNames, groupNames, ih, List.cons_append]
    | close => exact ih
    | bar => exact ih

@[simp] theorem parse_item (stack : List Frame) (f : Frame) (r : Re) (ts : List Token) :
    parse stack f (.item r :: ts) = parse stack (f.append [r]) ts := by cases stack <;> rfl

@[simp] theorem parse_openGroup (stack : List Frame) (f : Frame) (name : Option Str)
    (ts : List Token) :
    parse stack f (.openGroup name :: ts) = parse (f :: stack) (.new name) ts := by
  cases stack <;> rfl

@[simp] theorem parse_bar (stack : List Frame) (f : Frame) (ts : List Token) :
    parse stack f (.bar :: ts) = parse stack f.nextAlt ts := by cases stack <;> rfl

@[simp] theorem parse_close (stack : List Frame) (f g : Frame) (ts : List Token) :
    parse (g :: stack) f (.close :: ts) = parse stack (g.append [f.regex]) ts := rfl

/-- A named group with one alternative. -/
theorem parse_group (stack : List Frame) (f : Frame) (name : Str) (ts : List Token) (rs : List Re)
    (rest : List Token)
    (hts : ∀ stack f rest, parse stack f (ts ++ rest) = parse stack (f.append rs) rest) :
    parse stack f (.openGroup (some name) :: ts ++ .close :: rest) =
      parse stack (f.append [.group name (Regex.seq rs)]) rest := by
  rw [List.cons_append, parse_openGroup, hts, parse_close]
  rfl

end LocalPost.Http.Routing
