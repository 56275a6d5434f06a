import LocalPost.Http.Routing.Pattern

/-!
# URI templates

`URITemplate.parse` writes a template as a pattern and compiles it; the router writes the same
pattern again with a prefix before every variable's name. For names without `>` the reader gets back
what was written, so the pattern compiles exactly when the names are distinct identifiers
(`parse_eq_some_iff`), and what it matches does not depend on the names (`isSome_match_iff`).
-/

set_option autoImplicit false

namespace LocalPost.Http.Routing

open LocalPost.Core

/-- A template is a list of letters and variables. -/
inductive Piece where
  | lit (c : Char)
  | var (name : Str)
  deriving DecidableEq, Repr

/-- `_VAR_PATTERN.finditer` over a template: a variable is a brace, one or more letters other than
the closing brace, and the closing brace. `read` is what follows an open brace that may begin
one. -/
def pieces : Option Str → Str → List Piece
  | none, [] => []
  | none, c :: cs => if c = '{' then pieces (some []) cs else .lit c :: pieces none cs
  | some read, [] => .lit '{' :: read.map .lit
  | some read, c :: cs =>
    if c = '}' then
      if read = [] then .lit '{' :: .lit '}' :: pieces none cs else .var read :: pieces none cs
    else pieces (some (read ++ [c])) cs

/-- The names of the variables. -/
def variableNames (ps : List Piece) : List Str :=
  ps.filterMap fun
    | .lit _ => none
    | .var name => some name

/-- The source of one piece of a pattern; `rename` is what is done to the names. -/
def Piece.source (rename : Str → Str) : Piece → Str
  | .lit c => escape c
  | .var name => groupStart (rename name) ++ (plusNot '/' ++ [')'])

/-- The source of a pattern. -/
def regexSource (rename : Str → Str) (ps : List Piece) : Str := ps.flatMap (Piece.source rename)

/-- `URITemplate`. -/
structure URITemplate where
  template : Str
  variable_names : List Str
  regex : Re
  deriving DecidableEq, Repr

namespace URITemplate

/-- `URITemplate.parse`; `none` is an error of `re`. -/
def parse (U : Unicode) (template : Str) : Option URITemplate :=
  let ps := pieces none template
  (compile U ('^' :: regexSource id ps ++ ['$'])).map fun r => ⟨template, variableNames ps, r⟩

/-- `URITemplate.match`: the groups that the match has passed. -/
def match? (t : URITemplate) (uri : Str) : Option (List (Str × Str)) := t.regex.match? uri

end URITemplate

/-! ## What a template's pattern means -/

/-- The expression of a piece. -/
def Piece.regex (rename : Str → Str) : Piece → Re
  | .lit c => .char c
  | .var name => .group (rename name) (Regex.seq [.plusNot '/'])

/-- The tokens of a piece. -/
def Piece.tokens (rename : Str → Str) : Piece → List Token
  | .lit c => [.item (.char c)]
  | .var name => [.openGroup (some (rename name)), .item (.plusNot '/'), .close]

/-- No name of a variable holds the letter that ends a group's name. -/
def PlainNames (ps : List Piece) : Prop := ∀ name ∈ variableNames ps, '>' ∉ name

instance (ps : List Piece) : Decidable (PlainNames ps) :=
  inferInstanceAs (Decidable (∀ name ∈ _, _))

variable {U : Unicode} {rename : Str → Str} {ps : List Piece}

/-- The source of a template is read token by token. -/
theorem lex_source (hplain : ∀ name ∈ variableNames ps, '>' ∉ rename name) (rest : Str) :
    lex .normal (regexSource rename ps ++ rest) =
      (lex .normal rest).map (ps.flatMap (Piece.tokens rename) ++ ·) := by
  induction ps with
  | nil => simp [regexSource]
  | cons p ps ih =>
    -- The names behind the first piece are names of the template.
    have hrest : lex .normal (regexSource rename ps ++ rest) =
        (lex .normal rest).map (ps.flatMap (Piece.tokens rename) ++ ·) := by
      apply ih
      intro name hname
      apply hplain
      cases p with
      | lit c => exact hname
      | var name' => exact List.mem_cons_of_mem _ hname
    rw [regexSource, List.flatMap_cons, List.append_assoc]
    change lex .normal (p.source rename ++ (regexSource rename ps ++ rest)) = _
    -- a literal is escaped; a variable is a group that passes everything but the slash
    cases p with
    | lit c =>
      rw [Piece.source, lex_escape, hrest, Option.map_map]
      rfl
    | var name =>
      have hname : '>' ∉ rename name := hplain name (List.mem_cons_self)
      rw [Piece.source, List.append_assoc, lex_groupStart _ _ hname, List.append_assoc, lex_slash,
        List.singleton_append, lex_close, hrest, Option.map_map, Option.map_map, Option.map_map]
      rfl

theorem groupNames_tokens :
    groupNames (ps.flatMap (Piece.tokens rename)) = (variableNames ps).map rename := by
  induction ps with
  | nil => rfl
  | cons p ps ih =>
    rw [List.flatMap_cons, groupNames_append, ih]
    cases p with
    | lit c => rfl
    | var name => rfl

/-- The tokens of a template are parsed into its pieces. -/
theorem parse_tokens (stack : List Frame) (f : Frame) (rest : List Token) :
    parse stack f (ps.flatMap (Piece.tokens rename) ++ rest) =
      parse stack (f.append (ps.map (Piece.regex rename))) rest := by
  induction ps generalizing f with
  | nil => rw [List.flatMap_nil, List.nil_append, List.map_nil, Frame.append_nil]
  | cons p ps ih =>
    rw [List.flatMap_cons, List.append_assoc]
    have hpiece : parse stack f (p.tokens rename ++ (ps.flatMap (Piece.tokens rename) ++ rest)) =
        parse stack (f.append [p.regex rename]) (ps.flatMap (Piece.tokens rename) ++ rest) := by
      cases p with
      | lit c => simp [Piece.tokens, Piece.regex]
      | var name =>
        simp only [Piece.tokens, List.cons_append, List.nil_append, parse_openGroup, parse_item,
          parse_close]
        rfl
    rw [hpiece, ih, Frame.append_append, List.map_cons, List.singleton_append]

/-- The expression of a template. -/
def pieceRegex (ps : List Piece) : Re :=
  Regex.seq (.start :: ps.map (Piece.regex id) ++ [.finish '\n'])

/-- A template compiles exactly if its names are distinct identifiers. -/
theorem compile_template (hplain : PlainNames ps) :
    compile U ('^' :: regexSource id ps ++ ['$']) =
      if (variableNames ps).all U.isIdentifier ∧ (variableNames ps).Nodup then some (pieceRegex ps)
      else none := by
  have hlex : lex .normal ('^' :: regexSource id ps ++ ['$']) =
      some (.item .start :: (ps.flatMap (Piece.tokens id) ++ [.item (.finish '\n')])) := by
    change (lex .normal (regexSource id ps ++ ['$'])).map _ = _
    rw [@lex_source id _ hplain]
    rfl
  have hnames : groupNames (.item .start :: (ps.flatMap (Piece.tokens id) ++
      [.item (.finish '\n')])) = variableNames ps := by
    rw [groupNames.eq_3 _ _ (by simp), groupNames_append, groupNames_tokens, List.map_id]
    exact List.append_nil _
  rw [compile, hlex, Option.bind_some, hnames, parse_item, parse_tokens, parse_item]
  rfl

/-- A template with plain names is accepted exactly when the names are distinct identifiers. -/
theorem URITemplate.parse_eq_some_iff {template : Str} {t : URITemplate}
    (hplain : PlainNames (pieces none template)) :
    URITemplate.parse U template = some t ↔
      ((variableNames (pieces none template)).all U.isIdentifier = true ∧
        (variableNames (pieces none template)).Nodup) ∧
      t = ⟨template, variableNames (pieces none template), pieceRegex (pieces none template)⟩ := by
  rw [URITemplate.parse, compile_template hplain]
  split
  · rename_i h
    rw [Option.map_some, Option.some.injEq]
    exact ⟨fun heq => ⟨h, heq.symm⟩, fun heq => heq.2.symm⟩
  · rename_i h
    exact ⟨fun heq => (by cases heq), fun heq => absurd heq.1 h⟩

/-- The pieces match the path, whatever their names: a match from the beginning ends at the end, or
before a final newline. -/
def Fits (ps : List Piece) (path : Str) : Prop :=
  ∃ q ∈ (Regex.seq (ps.map (Piece.regex id))).steps (0, path), q.2 = [] ∨ q.2 = ['\n']

/-- The names of the groups do not matter to what is matched. -/
theorem steps_rename (path : Str) :
    (Regex.seq (ps.map (Piece.regex rename))).steps (0, path) =
      (Regex.seq (ps.map (Piece.regex id))).steps (0, path) := by
  have hrename : ps.map (Piece.regex rename) =
      (ps.map (Piece.regex id)).map (Regex.relabel rename) := by
    rw [List.map_map]
    apply List.map_congr_left
    intro p _
    cases p with
    | lit c => rfl
    | var name => rfl
  rw [hrename, ← Regex.seq_relabel, Regex.steps_relabel]

theorem isSome_match_iff {template path : Str} {t : URITemplate}
    (hplain : PlainNames (pieces none template)) (ht : URITemplate.parse U template = some t) :
    (t.match? path).isSome = true ↔ Fits (pieces none template) path := by
  obtain ⟨-, rfl⟩ := (URITemplate.parse_eq_some_iff hplain).1 ht
  rw [URITemplate.match?, Regex.isSome_match_iff]
  exact Regex.accepts_anchored

end LocalPost.Http.Routing
