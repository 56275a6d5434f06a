import LocalPost.Core.ListEntries
import LocalPost.Http.Routing.Template
import Mathlib.Data.List.Induction

/-!
# What a template matches

A path that a template matches should be the template with its variables replaced by non-empty
values without a slash, and every such path should match (`Exact`). The pattern of a template ends
with `$`, which also accepts the place before a final newline. So a template that cannot take that
newline into the value of its last variable matches too much (`matching_exact_iff`): `/a` matches
the path `/a` with a newline after it.
-/

set_option autoImplicit false

namespace LocalPost.Http.Routing

open LocalPost.Core
open LocalPost.Core.Regex
  (Cursor mem_passNot pairwise_passNot results_seq_append named_results named_seq
  named_choice head?_results_anchored)

/-! ## Expanding a template -/

/-- A piece with the variables replaced. -/
def Piece.expand (d : List (Str × Str)) : Piece → Str
  | .lit c => [c]
  | .var name => (d.lookup name).getD []

/-- The template with every variable replaced by its value. -/
def expand (ps : List Piece) (d : List (Str × Str)) : Str := ps.flatMap (Piece.expand d)

/-- What a variable may stand for. -/
def Segment (v : Str) : Prop := v ≠ [] ∧ '/' ∉ v

/-- Values for exactly the variables of the template. -/
def Assignment (ps : List Piece) (d : List (Str × Str)) : Prop :=
  d.map Prod.fst = variableNames ps ∧ ∀ e ∈ d, Segment e.2

/-- Every variable is followed by a slash or stands at the end. -/
def delimited : List Piece → Bool
  | [] => true
  | .lit _ :: ps => delimited ps
  | .var _ :: ps => (ps.isEmpty || ps.head? = some (.lit '/')) && delimited ps

/-- Nothing but newlines follows the last variable, and there is one. -/
def endsOpen : List Piece → Bool
  | [] => false
  | .lit _ :: ps => endsOpen ps
  | .var _ :: ps => ps.all (· = .lit '\n') || endsOpen ps

/-- Matching is the inverse of expanding at this path. -/
structure Exact (t : URITemplate) (path : Str) : Prop where
  sound : ∀ d, t.match? path = some d →
    Assignment (pieces none t.template) d ∧ path = expand (pieces none t.template) d
  complete : ∀ d, Assignment (pieces none t.template) d → path = expand (pieces none t.template) d →
    (t.match? path).isSome = true
  unique : delimited (pieces none t.template) = true →
    ∀ d, Assignment (pieces none t.template) d → path = expand (pieces none t.template) d →
      t.match? path = some d

/-! ## Values without names -/

/-- The template with its variables replaced one after the other. -/
def fill : List Piece → List Str → Str
  | [], _ => []
  | .lit c :: ps, vs => c :: fill ps vs
  | .var _ :: ps, vs => vs.headD [] ++ fill ps vs.tail

/-- As many values as there are variables. -/
def Values (ps : List Piece) (vs : List Str) : Prop :=
  vs.length = (variableNames ps).length ∧ ∀ v ∈ vs, Segment v

variable {ps : List Piece}

/-- The values of a variable and what follows are a segment and the values of the rest. -/
theorem values_var {name : Str} {vs : List Str} :
    Values (.var name :: ps) vs ↔ ∃ v vs', vs = v :: vs' ∧ Segment v ∧ Values ps vs' := by
  constructor
  · rintro ⟨hlength, hvs⟩
    cases vs with
    | nil => cases hlength
    | cons v vs =>
      rw [List.forall_mem_cons] at hvs
      exact ⟨v, vs, rfl, hvs.1, Nat.succ.inj hlength, hvs.2⟩
  · rintro ⟨v, vs, rfl, hv, hlength, hvs⟩
    exact ⟨congrArg (· + 1) hlength, List.forall_mem_cons.2 ⟨hv, hvs⟩⟩

/-- Values and the names in front of them are an assignment. -/
theorem assignment_iff {d : List (Str × Str)} :
    Assignment ps d ↔ ∃ vs, Values ps vs ∧ d = (variableNames ps).zip vs := by
  constructor
  · rintro ⟨hnames, hd⟩
    refine ⟨d.map Prod.snd, ⟨?_, ?_⟩, List.zip_of_prod hnames rfl⟩
    · rw [← hnames, List.length_map, List.length_map]
    · intro v hv
      obtain ⟨e, he, rfl⟩ := List.mem_map.1 hv
      exact hd e he
  · rintro ⟨vs, ⟨hlength, hvs⟩, rfl⟩
    refine ⟨List.map_fst_zip (Nat.le_of_eq hlength.symm), ?_⟩
    intro e he
    exact hvs e.2 (List.of_mem_zip he).2

/-- A name that the template does not use changes nothing. -/
theorem expand_cons_of_notMem {name v : Str} {d : List (Str × Str)} (h : name ∉ variableNames ps) :
    expand ps ((name, v) :: d) = expand ps d := by
  apply List.flatMap_congr
  intro p hp
  cases p with
  | lit c => rfl
  | var name' =>
    have hne : (name' == name) = false := by
      rw [beq_eq_false_iff_ne]
      rintro rfl
      exact h (List.mem_filterMap.2 ⟨.var name', hp, rfl⟩)
    rw [Piece.expand, Piece.expand, List.lookup_cons, hne]

/-- Expanding a template with its values is filling it. -/
theorem expand_zip {vs : List Str} (hnames : (variableNames ps).Nodup) (hvs : Values ps vs) :
    expand ps ((variableNames ps).zip vs) = fill ps vs := by
  induction ps generalizing vs with
  | nil => rfl
  | cons p ps ih =>
    cases p with
    | lit c => exact congrArg (c :: ·) (ih hnames hvs)
    | var name =>
      obtain ⟨v, vs, rfl, -, hvs'⟩ := values_var.1 hvs
      obtain ⟨hname, hnames'⟩ := List.nodup_cons.1 hnames
      have hrest : expand ps ((name, v) :: (variableNames ps).zip vs) = fill ps vs := by
        rw [expand_cons_of_notMem hname, ih hnames' hvs']
      have hhead : Piece.expand ((name, v) :: (variableNames ps).zip vs) (.var name) = v := by
        rw [Piece.expand, List.lookup_cons_self, Option.getD_some]
      change Piece.expand ((name, v) :: (variableNames ps).zip vs) (.var name) ++
        expand ps ((name, v) :: (variableNames ps).zip vs) = v ++ fill ps vs
      rw [hhead, hrest]

/-- Between slashes the values can be read off. -/
theorem fill_injective (hps : delimited ps = true) {vs ws : List Str} (hvs : Values ps vs)
    (hws : Values ps ws) (h : fill ps vs = fill ps ws) : vs = ws := by
  induction ps generalizing vs ws with
  | nil => rw [List.eq_nil_of_length_eq_zero hvs.1, List.eq_nil_of_length_eq_zero hws.1]
  | cons p ps ih =>
    cases p with
    | lit c => exact ih hps hvs hws (List.cons.inj h).2
    | var name =>
      obtain ⟨v, vs, rfl, hv, hvs'⟩ := values_var.1 hvs
      obtain ⟨w, ws, rfl, hw, hws'⟩ := values_var.1 hws
      change v ++ fill ps vs = w ++ fill ps ws at h
      obtain ⟨hnext, hps'⟩ := Bool.and_eq_true_iff.1 hps
      have hsplit : v = w ∧ fill ps vs = fill ps ws := by
        cases ps with
        | nil =>
          rw [fill, fill, List.append_nil, List.append_nil] at h
          exact ⟨h, rfl⟩
        | cons p ps =>
          -- A slash follows, which neither value holds.
          have hp : p = .lit '/' := by simpa using hnext
          subst hp
          rw [fill, fill] at h
          obtain ⟨hvw, hrest⟩ := eq_of_append_cons hv.2 hw.2 h
          exact ⟨hvw, congrArg ('/' :: ·) hrest⟩
      rw [hsplit.1, ih hps' hvs' hws' hsplit.2]

/-- Filling keeps a letter at the end of the template. -/
theorem fill_concat_lit (c : Char) (vs : List Str) :
    fill (ps ++ [.lit c]) vs = fill ps vs ++ [c] := by
  induction ps generalizing vs with
  | nil => rfl
  | cons p ps ih =>
    cases p with
    | lit d => exact congrArg (d :: ·) (ih vs)
    | var name =>
      change vs.headD [] ++ fill (ps ++ [.lit c]) vs.tail = vs.headD [] ++ fill ps vs.tail ++ [c]
      rw [ih, List.append_assoc]

theorem endsOpen_concat_newline : endsOpen (ps ++ [.lit '\n']) = endsOpen ps := by
  induction ps with
  | nil => rfl
  | cons p ps ih =>
    cases p with
    | lit c => exact ih
    | var name =>
      rw [List.cons_append, endsOpen, endsOpen, ih, List.all_append]
      simp

theorem endsOpen_concat_var (name : Str) : endsOpen (ps ++ [.var name]) = true := by
  induction ps with
  | nil => rfl
  | cons p ps ih =>
    cases p with
    | lit c => exact ih
    | var name' => rw [List.cons_append, endsOpen, ih, Bool.or_true]

/-- Two expansions that differ by a final newline: the newline belongs to a value. -/
theorem endsOpen_of_fill {vs ws : List Str} (h : fill ps vs = fill ps ws ++ ['\n']) :
    endsOpen ps = true := by
  -- From the right: literals are newlines and go, until a variable stands there.
  induction ps using List.reverseRecOn with
  | nil => cases h
  | append_singleton ps p ih =>
    cases p with
    | lit c =>
      rw [fill_concat_lit, fill_concat_lit] at h
      obtain ⟨hrest, hc⟩ := List.append_inj' h rfl
      obtain ⟨rfl, -⟩ := List.cons.inj hc
      rw [endsOpen_concat_newline]
      exact ih hrest
    | var name => exact endsOpen_concat_var name

/-- A template ends open when it is a variable and newlines, after anything. -/
theorem endsOpen_iff :
    endsOpen ps = true ↔
      ∃ before name k, ps = before ++ .var name :: List.replicate k (.lit '\n') := by
  induction ps with
  | nil => simp [endsOpen]
  | cons p ps ih =>
    constructor
    · intro h
      -- a literal in front changes nothing
      cases p with
      | lit c =>
        obtain ⟨before, name, k, rfl⟩ := ih.1 h
        exact ⟨.lit c :: before, name, k, rfl⟩
      | var name' =>
        -- this variable is the last one, or a later one is
        cases Bool.or_eq_true_iff.1 h with
        | inl hall =>
          have hps : ps = List.replicate ps.length (.lit '\n') :=
            List.eq_replicate_length.2 (by simpa using hall)
          exact ⟨[], name', ps.length, congrArg (.var name' :: ·) hps⟩
        | inr hps =>
          obtain ⟨before, name, k, rfl⟩ := ih.1 hps
          exact ⟨.var name' :: before, name, k, rfl⟩
    · rintro ⟨before, name, k, h⟩
      -- the other way the part before the variable is taken off, piece by piece
      cases before with
      | nil =>
        obtain ⟨rfl, rfl⟩ := List.cons.inj h
        simp [endsOpen]
      | cons q before =>
        obtain ⟨rfl, hps⟩ := List.cons.inj h
        have hopen : endsOpen ps = true := ih.2 ⟨before, name, k, hps⟩
        cases p with
        | lit c => exact hopen
        | var name' => rw [endsOpen, hopen, Bool.or_true]

/-! ## What the expression of a template matches -/

/-- A letter of a template matches itself. -/
theorem mem_results_lit {c : Char} {s m : Cursor Char Str} :
    m ∈ (Piece.regex id (.lit c)).results s ↔
      s.rest = c :: m.rest ∧ m.pos = s.pos + 1 ∧ m.groups = s.groups := by
  obtain ⟨pos, text, groups⟩ := s
  obtain ⟨pos', rest, groups'⟩ := m
  rw [Piece.regex, Regex.results]
  cases text with
  | nil => simp
  | cons d text =>
    by_cases hd : d = c
    · simp [hd, eq_comm]
      tauto
    · simp [hd]

theorem results_var (name : Str) (s : Cursor Char Str) :
    (Piece.regex id (.var name)).results s = (Regex.passNot '/' s.rest).map fun rest =>
      ⟨s.pos + (s.rest.length - rest.length), rest,
        s.groups ++ [(name, s.rest.take (s.pos + (s.rest.length - rest.length) - s.pos))]⟩ := by
  simp [Piece.regex, Regex.seq, Regex.results, List.map_map, Function.comp_def]

/-- A variable matches a segment, under its name. -/
theorem mem_results_var {name : Str} {s m : Cursor Char Str} :
    m ∈ (Piece.regex id (.var name)).results s ↔
      ∃ v, Segment v ∧ s.rest = v ++ m.rest ∧ m.pos = s.pos + v.length ∧
        m.groups = s.groups ++ [(name, v)] := by
  rw [results_var, List.mem_map]
  constructor
  · rintro ⟨rest, hrest, rfl⟩
    obtain ⟨v, hv, hslash, htext⟩ := mem_passNot.1 hrest
    refine ⟨v, ⟨hv, hslash⟩, htext, ?_, ?_⟩
    · simp [htext]
    · simp [htext]
  · rintro ⟨v, hv, htext, hpos, hgroups⟩
    refine ⟨m.rest, mem_passNot.2 ⟨v, hv.1, hv.2, htext⟩, ?_⟩
    obtain ⟨pos, rest, groups⟩ := m
    dsimp only at htext hpos hgroups
    simp [htext, hpos, hgroups]

/-- The partial matches are the ways to fill the variables. -/
theorem mem_results {s t : Cursor Char Str} :
    t ∈ (Regex.seq (ps.map (Piece.regex id))).results s ↔
      ∃ vs, Values ps vs ∧ s.rest = fill ps vs ++ t.rest ∧ t.pos = s.pos + (fill ps vs).length ∧
        t.groups = s.groups ++ (variableNames ps).zip vs := by
  -- On the pieces: the regex of the first one goes on to the matches of the rest.
  induction ps generalizing s with
  | nil =>
    rw [List.map_nil, Regex.seq, Regex.results, List.mem_singleton]
    constructor
    · rintro rfl
      exact ⟨[], ⟨rfl, by simp⟩, rfl, rfl, (List.append_nil _).symm⟩
    · rintro ⟨vs, ⟨hlength, -⟩, hrest, hpos, hgroups⟩
      have hvs : vs = [] := List.eq_nil_of_length_eq_zero hlength
      subst hvs
      obtain ⟨pos, rest, groups⟩ := t
      obtain ⟨pos', rest', groups'⟩ := s
      rw [Regex.Cursor.mk.injEq]
      exact ⟨hpos, hrest.symm, hgroups.trans (List.append_nil _)⟩
  | cons p ps ih =>
    rw [List.map_cons, Regex.seq, Regex.results, List.mem_flatMap]
    simp only [ih]
    cases p with
    | lit c =>
      simp only [mem_results_lit]
      constructor
      · rintro ⟨m, ⟨hs, hpos, hgroups⟩, vs, hvs, hrest, hpos', hgroups'⟩
        refine ⟨vs, hvs, ?_, ?_, ?_⟩
        · rw [hs, hrest]
          rfl
        · rw [hpos', hpos, fill, List.length_cons]
          omega
        · rw [hgroups', hgroups]
          rfl
      · rintro ⟨vs, hvs, hrest, hpos, hgroups⟩
        refine ⟨⟨s.pos + 1, fill ps vs ++ t.rest, s.groups⟩, ⟨hrest, rfl, rfl⟩, vs, hvs, rfl, ?_,
          hgroups⟩
        rw [hpos, fill, List.length_cons]
        dsimp only
        omega
    -- The value of the variable is the first one; the others are those of the rest.
    | var name =>
      simp only [mem_results_var]
      constructor
      · rintro ⟨m, ⟨v, hv, hs, hpos, hgroups⟩, vs, hvs, hrest, hpos', hgroups'⟩
        refine ⟨v :: vs, values_var.2 ⟨v, vs, rfl, hv, hvs⟩, ?_, ?_, ?_⟩
        · rw [hs, hrest, ← List.append_assoc]
          rfl
        · rw [hpos', hpos, fill, List.headD_cons, List.tail_cons, List.length_append]
          omega
        · rw [hgroups', hgroups, List.append_assoc]
          rfl
      · rintro ⟨vs, hvs, hrest, hpos, hgroups⟩
        obtain ⟨v, vs, rfl, hv, hvs'⟩ := values_var.1 hvs
        rw [fill, List.headD_cons, List.tail_cons] at hrest hpos
        refine ⟨⟨s.pos + v.length, fill ps vs ++ t.rest, s.groups ++ [(name, v)]⟩,
          ⟨v, hv, hrest.trans (List.append_assoc _ _ _), rfl, rfl⟩, vs, hvs', rfl, ?_, ?_⟩
        · rw [hpos, List.length_append]
          dsimp only
          omega
        · rw [hgroups]
          exact (List.append_assoc _ [(name, v)] _).symm

theorem variableNames_newlines (k : Nat) :
    variableNames (List.replicate k (.lit '\n')) = [] := by
  induction k with
  | zero => rfl
  | succ k ih => exact ih

theorem fill_newlines (k : Nat) (vs : List Str) :
    fill (List.replicate k (.lit '\n')) vs = List.replicate k '\n' := by
  induction k with
  | zero => rfl
  | succ k ih =>
    rw [List.replicate_succ, fill, ih]
    rfl

/-- The newlines after a variable match exactly as many newlines. -/
theorem mem_results_newlines {k : Nat} {s t : Cursor Char Str} :
    t ∈ (Regex.seq ((List.replicate k (.lit '\n')).map (Piece.regex id))).results s ↔
      s.rest = List.replicate k '\n' ++ t.rest ∧ t.pos = s.pos + k ∧ t.groups = s.groups := by
  rw [mem_results]
  simp only [Values, variableNames_newlines, fill_newlines, List.length_replicate, List.length_nil,
    List.zip_nil_left, List.append_nil]
  constructor
  · rintro ⟨vs, -, h⟩
    exact h
  · intro h
    exact ⟨[], ⟨rfl, by simp⟩, h⟩

/-- The last variable is tried with the longest value first, so a final newline that it may hold is
its own. -/
theorem rest_of_var_newlines {name : Str} {k : Nat} {s t : Cursor Char Str}
    (h : ((Regex.seq ((.var name :: List.replicate k (.lit '\n')).map (Piece.regex id))).results
      s).find? (Cursor.ends '\n') = some t) : t.rest = [] := by
  rw [List.map_cons, Regex.seq, Regex.results, List.find?_flatMap, List.findSome?_eq_some_iff] at h
  obtain ⟨before, a, after, hresults, ha, hbefore⟩ := h
  have hends : t.rest = [] ∨ t.rest = ['\n'] := by simpa [Cursor.ends] using List.find?_some ha
  have harest : a.rest = List.replicate k '\n' ++ t.rest :=
    (mem_results_newlines.1 (List.mem_of_find?_eq_some ha)).1
  cases hends with
  | inl h => exact h
  | inr hnewline =>
    exfalso
    have hmem : a ∈ (Piece.regex id (.var name)).results s := by
      rw [hresults]
      simp
    obtain ⟨v, hv, hs, -, -⟩ := mem_results_var.1 hmem
    -- the same text with the newline in the value
    have hv' : Segment (v ++ ['\n']) := ⟨by simp, by simp [hv.2]⟩
    have hs' : s.rest = (v ++ ['\n']) ++ List.replicate k '\n' := by
      have hswap : List.replicate k '\n' ++ ['\n'] = ['\n'] ++ List.replicate k '\n' :=
        (List.replicate_succ' (n := k) (a := '\n')).symm.trans List.replicate_succ
      rw [hs, harest, hnewline, List.append_assoc, hswap]
    obtain ⟨b, hb, hbrest⟩ : ∃ b ∈ (Piece.regex id (.var name)).results s,
        b.rest = List.replicate k '\n' :=
      ⟨⟨_, _, _⟩, mem_results_var.2 ⟨v ++ ['\n'], hv', hs', rfl, rfl⟩, rfl⟩
    have hfound :
        ((Regex.seq ((List.replicate k (.lit '\n')).map (Piece.regex id))).results b).find?
          (Cursor.ends '\n') ≠ none := by
      intro hnone
      have hend := List.find?_eq_none.1 hnone ⟨b.pos + k, [], b.groups⟩
        (mem_results_newlines.2 ⟨hbrest.trans (List.append_nil _).symm, rfl, rfl⟩)
      exact hend rfl
    have horder : ((Piece.regex id (.var name)).results s).Pairwise
        fun x y => x.rest.length < y.rest.length := by
      rw [results_var, List.pairwise_map]
      exact pairwise_passNot '/' s.rest
    have hlength : b.rest.length < a.rest.length := by
      rw [harest, hbrest, hnewline, List.length_append]
      exact Nat.lt_succ_self _
    rw [hresults, List.mem_append, List.mem_cons] at hb
    rw [hresults] at horder
    -- The longer value is tried before the shorter one that was taken.
    rcases hb with hb | rfl | hb
    · exact hfound (hbefore b hb)
    · exact Nat.lt_irrefl _ hlength
    · have hafter := (List.pairwise_cons.1 (List.pairwise_append.1 horder).2.1).1 b hb
      exact Nat.lt_asymm hafter hlength

/-- A template that ends open is matched to the end. -/
theorem rest_of_endsOpen (hps : endsOpen ps = true) {s t : Cursor Char Str}
    (h : ((Regex.seq (ps.map (Piece.regex id))).results s).find? (Cursor.ends '\n') = some t) :
    t.rest = [] := by
  obtain ⟨before, name, k, rfl⟩ := endsOpen_iff.1 hps
  rw [List.map_append, results_seq_append, List.find?_flatMap, List.findSome?_eq_some_iff] at h
  obtain ⟨-, m, -, -, hm, -⟩ := h
  exact rest_of_var_newlines hm

/-! ## Matching against expanding -/

/-- A template as `parse` builds it. -/
def built (template : Str) : URITemplate :=
  ⟨template, variableNames (pieces none template), pieceRegex (pieces none template)⟩

theorem match_built (template path : Str) :
    (built template).match? path =
      (((Regex.seq ((pieces none template).map (Piece.regex id))).results ⟨0, path, []⟩).find?
        (Cursor.ends '\n')).map (·.groups) :=
  congrArg (Option.map fun t : Cursor Char Str => t.groups) head?_results_anchored

/-- What a match found: values, and what they leave of the path. -/
theorem match_built_some {template path : Str} {d : List (Str × Str)}
    (h : (built template).match? path = some d) :
    ∃ vs rest, Values (pieces none template) vs ∧ path = fill (pieces none template) vs ++ rest ∧
      (rest = [] ∨ rest = ['\n']) ∧ (endsOpen (pieces none template) = true → rest = []) ∧
      d = (variableNames (pieces none template)).zip vs := by
  rw [match_built, Option.map_eq_some_iff] at h
  obtain ⟨t, ht, rfl⟩ := h
  obtain ⟨vs, hvs, hrest, -, hgroups⟩ := mem_results.1 (List.mem_of_find?_eq_some ht)
  refine ⟨vs, t.rest, hvs, hrest, ?_, fun hopen => rest_of_endsOpen hopen ht, hgroups⟩
  simpa [Cursor.ends] using List.find?_some ht

/-- The template with its variables filled matches, and so does it with a newline. -/
theorem isSome_match_built {template : Str} {vs : List Str} {rest : Str}
    (hvs : Values (pieces none template) vs) (hrest : rest = [] ∨ rest = ['\n']) :
    ((built template).match? (fill (pieces none template) vs ++ rest)).isSome = true := by
  rw [match_built, Option.isSome_map, List.find?_isSome]
  refine ⟨⟨_, rest, _⟩, mem_results.2 ⟨vs, hvs, rfl, rfl, rfl⟩, ?_⟩
  simpa [Cursor.ends] using hrest

/-- A template with distinct names matches exactly, but for a newline that no value can hold. -/
theorem exact_built_iff {template path : Str}
    (hnames : (variableNames (pieces none template)).Nodup) :
    Exact (built template) path ↔
      (endsOpen (pieces none template) = true ∨
        ¬∃ d, Assignment (pieces none template) d ∧ path = expand
          (pieces none template) d ++ ['\n']) := by
  constructor
  · intro hexact
    rw [or_iff_not_imp_left]
    rintro hopen ⟨d, hd, hpath⟩
    obtain ⟨vs, hvs, rfl⟩ := assignment_iff.1 hd
    rw [expand_zip hnames hvs] at hpath
    have hmatch : ((built template).match? (fill (pieces none template) vs ++ ['\n'])).isSome =
      true :=
      isSome_match_built hvs (Or.inr rfl)
    rw [← hpath] at hmatch
    obtain ⟨d', hd'⟩ := Option.isSome_iff_exists.1 hmatch
    obtain ⟨hassigned, hexpand⟩ := hexact.sound d' hd'
    obtain ⟨ws, hws, rfl⟩ := assignment_iff.1 hassigned
    -- the path would be an expansion with and without its newline
    have hfill : fill (pieces none template) ws = fill (pieces none template) vs ++ ['\n'] := by
      rw [← hpath, hexpand]
      exact (expand_zip hnames hws).symm
    exact hopen (endsOpen_of_fill hfill)
  · intro hcondition
    have hsound : ∀ d, (built template).match? path = some d →
        Assignment (pieces none template) d ∧ path = expand (pieces none template) d := by
      intro d hd
      obtain ⟨vs, rest, hvs, hpath, hrest, hopen, rfl⟩ := match_built_some hd
      have hassigned := assignment_iff.2 ⟨vs, hvs, rfl⟩
      have hempty : rest = [] := by
        cases hcondition with
        | inl h => exact hopen h
        | inr h =>
          apply hrest.resolve_right
          rintro rfl
          exact h ⟨_, hassigned, by rw [expand_zip hnames hvs, hpath]⟩
      refine ⟨hassigned, ?_⟩
      rw [expand_zip hnames hvs, hpath, hempty, List.append_nil]
    have hcomplete : ∀ d, Assignment (pieces none template) d →
        path = expand (pieces none template) d → ((built template).match? path).isSome = true := by
      intro d hd hpath
      obtain ⟨vs, hvs, rfl⟩ := assignment_iff.1 hd
      have hmatch : ((built template).match? (fill (pieces none template) vs ++ [])).isSome =
        true :=
        isSome_match_built hvs (Or.inl rfl)
      rwa [List.append_nil, ← expand_zip hnames hvs, ← hpath] at hmatch
    have hunique : delimited (pieces none template) = true →
        ∀ d, Assignment (pieces none template) d → path = expand (pieces none template) d →
          (built template).match? path = some d := by
      intro hdelimited d hd hpath
      obtain ⟨d', hd'⟩ := Option.isSome_iff_exists.1 (hcomplete d hd hpath)
      obtain ⟨hassigned, hpath'⟩ := hsound d' hd'
      obtain ⟨vs, hvs, rfl⟩ := assignment_iff.1 hd
      obtain ⟨ws, hws, rfl⟩ := assignment_iff.1 hassigned
      rw [expand_zip hnames hvs] at hpath
      rw [expand_zip hnames hws, hpath] at hpath'
      rw [hd', fill_injective hdelimited hvs hws hpath']
    exact ⟨hsound, hcomplete, hunique⟩

/-! ## Names that close their group -/

/-- What is read of a group so far bears the names `P` only. -/
structure Frame.Named (P : Str → Prop) (f : Frame) : Prop where
  name : ∀ name, f.name = some name → P name
  alts : ∀ rs ∈ f.alts, ∀ r ∈ rs, r.Named P
  items : ∀ r ∈ f.items, r.Named P

namespace Frame.Named

variable {P : Str → Prop} {f : Frame}

theorem append {r : Re} (hf : f.Named P) (hr : r.Named P) : (f.append [r]).Named P := by
  refine ⟨hf.name, hf.alts, ?_⟩
  intro q hq
  rw [Frame.append, List.mem_append, List.mem_singleton] at hq
  cases hq with
  | inl h => exact hf.items q h
  | inr h => exact h ▸ hr

theorem nextAlt (hf : f.Named P) : f.nextAlt.Named P := by
  refine ⟨hf.name, ?_, by simp [Frame.nextAlt]⟩
  intro rs hrs
  rw [Frame.nextAlt, List.mem_append, List.mem_singleton] at hrs
  cases hrs with
  | inl h => exact hf.alts rs h
  | inr h => exact h ▸ hf.items

theorem new {name : Option Str} (h : ∀ n, name = some n → P n) : (Frame.new name).Named P :=
  ⟨h, by simp [Frame.new], by simp [Frame.new]⟩

/-- The pattern of a group bears the names of what was read of it. -/
theorem regex (hf : f.Named P) : f.regex.Named P := by
  have hbody : (Regex.choice ((f.alts ++ [f.items]).map Regex.seq)).Named P := by
    apply named_choice
    intro r hr
    obtain ⟨rs, hrs, rfl⟩ := List.mem_map.1 hr
    rw [named_seq]
    rw [List.mem_append, List.mem_singleton] at hrs
    cases hrs with
    | inl h => exact hf.alts rs h
    | inr h => exact h ▸ hf.items
  obtain ⟨name, alts, items⟩ := f
  cases name with
  | none => exact hbody
  | some name => exact ⟨hf.name name rfl, hbody⟩

end Frame.Named

/-- The reader of a pattern makes no groups of its own. -/
theorem named_lex {P : Str → Prop} {mode : Mode} {source : Str} {ts : List Token} {r : Re}
    (h : lex mode source = some ts) (hr : Token.item r ∈ ts) : r.Named P := by
  induction source generalizing mode ts with
  | nil =>
    cases mode <;> cases h
    cases hr
  | cons c cs ih =>
    have htoken : ∀ t : Token, (∀ q, t = .item q → q.Named P) →
        (lex .normal cs).map (t :: ·) = some ts → r.Named P := by
      intro t ht hmap
      obtain ⟨us, hus, rfl⟩ := Option.map_eq_some_iff.1 hmap
      cases List.mem_cons.1 hr with
      | inl heq => exact ht r heq.symm
      | inr hmem => exact ih hus hmem
    cases mode <;> rw [lex] at h <;> split_ifs at h <;>
      first
      | exact ih h hr
      | exact htoken _ (by rintro q ⟨⟩; trivial) h
      | exact htoken _ (by rintro q ⟨⟩) h

/-- The expression bears the names of the pattern only. -/
theorem named_parse {P : Str → Prop} {stack : List Frame} {f : Frame} {ts : List Token} {r : Re}
    (h : parse stack f ts = some r) (hitems : ∀ q, Token.item q ∈ ts → q.Named P)
    (hnames : ∀ name ∈ groupNames ts, P name) (hstack : ∀ g ∈ stack, g.Named P)
    (hf : f.Named P) : r.Named P := by
  induction ts generalizing stack f with
  | nil =>
    cases stack with
    | nil => exact Option.some.inj h ▸ hf.regex
    | cons g stack => cases h
  | cons t ts ih =>
    have hitems' : ∀ q, Token.item q ∈ ts → q.Named P :=
      fun q hq => hitems q (List.mem_cons_of_mem t hq)
    cases t with
    | item q =>
      rw [parse_item] at h
      exact ih h hitems' hnames hstack (hf.append (hitems q List.mem_cons_self))
    | openGroup name =>
      rw [parse_openGroup] at h
      have hstack' : ∀ g ∈ f :: stack, g.Named P := List.forall_mem_cons.2 ⟨hf, hstack⟩
      cases name with
      | none => exact ih h hitems' hnames hstack' (.new fun n hn => (by cases hn))
      | some name =>
        rw [groupNames, List.forall_mem_cons] at hnames
        refine ih h hitems' hnames.2 hstack' (.new ?_)
        rintro n ⟨⟩
        exact hnames.1
    | close =>
      cases stack with
      | nil => cases h
      | cons g stack =>
        -- The group that ends becomes an item of the one around it.
        rw [List.forall_mem_cons] at hstack
        exact ih h hitems' hnames hstack.2 (hstack.1.append hf.regex)
    | bar =>
      rw [parse_bar] at h
      exact ih h hitems' hnames hstack hf.nextAlt

variable {U : Unicode}

/-- An identifier does not hold the letter that ends a group's name. -/
theorem plain_of_isIdentifier {name : Str} (h : U.isIdentifier name = true) : '>' ∉ name := by
  have hcontinues : U.continues '>' = false := by simp [Unicode.continues, Unicode.starts]
  intro hmem
  cases name with
  | nil => cases hmem
  | cons c cs =>
    obtain ⟨hc, hcs⟩ := Bool.and_eq_true_iff.1 h
    cases List.mem_cons.1 hmem with
    | inl heq =>
      rw [Unicode.continues, heq, hc, Bool.true_or, Bool.true_or] at hcontinues
      cases hcontinues
    | inr hmem =>
      rw [List.all_eq_true.1 hcs _ hmem] at hcontinues
      cases hcontinues

/-- No template gives a value a name with that letter. -/
theorem plain_of_match {template path : Str} {t : URITemplate} {d : List (Str × Str)}
    (ht : URITemplate.parse U template = some t) (h : t.match? path = some d) :
    ∀ e ∈ d, '>' ∉ e.1 := by
  obtain ⟨r, hcompile, rfl⟩ := Option.map_eq_some_iff.1 ht
  obtain ⟨ts, hlex, hparse⟩ := Option.bind_eq_some_iff.1 hcompile
  split at hparse
  · rename_i hnames
    have hplain : ∀ name ∈ groupNames ts, '>' ∉ name :=
      fun name hname => plain_of_isIdentifier (List.all_eq_true.1 hnames.1 name hname)
    have hnamed : r.Named fun name => '>' ∉ name :=
      named_parse hparse (fun q hq => named_lex hlex hq) hplain (by simp)
        (.new fun n hn => (by cases hn))
    obtain ⟨m, hm, rfl⟩ := Option.map_eq_some_iff.1 h
    exact named_results r hnamed ⟨0, path, []⟩ m (List.mem_of_head? hm) (by simp)
  · cases hparse

/-- Every template can be expanded. -/
theorem exists_assignment (ps : List Piece) : ∃ d, Assignment ps d := by
  refine ⟨(variableNames ps).map fun name => (name, ['x']), ?_, ?_⟩
  · rw [List.map_map]
    exact List.map_id _
  · intro e he
    obtain ⟨name, -, rfl⟩ := List.mem_map.1 he
    have hslash : '/' ∉ ['x'] := by decide
    exact ⟨List.cons_ne_nil _ _, hslash⟩

/-- Matching is exact for a template whose last variable may hold the final newline. For any other
it is exact at the paths that are not an expansion with a newline after it. -/
theorem matching_exact_iff {template : Str} {t : URITemplate}
    (ht : URITemplate.parse U template = some t) :
    (PlainNames (pieces none template) → ∀ path, Exact t path ↔
      (endsOpen (pieces none template) = true ∨
        ¬∃ d, Assignment (pieces none template) d ∧
          path = expand (pieces none template) d ++ ['\n'])) ∧
    ((∀ path, Exact t path) ↔
      PlainNames (pieces none template) ∧ endsOpen (pieces none template) = true) := by
  have hpath : PlainNames (pieces none template) → ∀ path, Exact t path ↔
      (endsOpen (pieces none template) = true ∨
        ¬∃ d, Assignment (pieces none template) d ∧
          path = expand (pieces none template) d ++ ['\n']) := by
    intro hplain path
    obtain ⟨⟨-, hnodup⟩, rfl⟩ := (URITemplate.parse_eq_some_iff hplain).1 ht
    exact exact_built_iff hnodup
  refine ⟨hpath, ?_⟩
  obtain ⟨d, hd⟩ := exists_assignment (pieces none template)
  constructor
  · intro hexact
    have hplain : PlainNames (pieces none template) := by
      -- the expansion would be matched under the names of the template
      intro name hname
      have htemplate : t.template = template := by
        obtain ⟨r, -, rfl⟩ := Option.map_eq_some_iff.1 ht
        rfl
      have hassigned := hexact (expand (pieces none template) d)
      obtain ⟨hsound, hcomplete, -⟩ := hassigned
      rw [htemplate] at hsound hcomplete
      obtain ⟨d', hd'⟩ := Option.isSome_iff_exists.1 (hcomplete d hd rfl)
      rw [← (hsound d' hd').1.1] at hname
      obtain ⟨e, he, rfl⟩ := List.mem_map.1 hname
      exact plain_of_match ht hd' e he
    refine ⟨hplain, ?_⟩
    have hnewline := (hpath hplain (expand (pieces none template) d ++ ['\n'])).1 (hexact _)
    exact hnewline.resolve_right fun h => h ⟨d, hd, rfl⟩
  · rintro ⟨hplain, hopen⟩ path
    exact (hpath hplain path).2 (Or.inl hopen)

/-- `/{a}` is exact at every path. -/
theorem segment_matching_exact :
    URITemplate.parse ⟨id, fun _ => false, fun _ => false⟩ ['/', '{', 'a', '}'] =
        some (built ['/', '{', 'a', '}']) ∧
      ∀ path, Exact (built ['/', '{', 'a', '}']) path := by
  have hparse : URITemplate.parse ⟨id, fun _ => false, fun _ => false⟩ ['/', '{', 'a', '}'] =
      some (built ['/', '{', 'a', '}']) := by decide
  exact ⟨hparse, (matching_exact_iff hparse).2.2 ⟨by decide, by decide⟩⟩

/-- `/a` matches a path with a newline at its end. -/
theorem literal_matches_newline :
    ∃ t, URITemplate.parse ⟨id, fun _ => false, fun _ => false⟩ ['/', 'a'] = some t ∧
      t.match? ['/', 'a', '\n'] = some [] ∧ ¬Exact t ['/', 'a', '\n'] := by
  have hparse : URITemplate.parse ⟨id, fun _ => false, fun _ => false⟩ ['/', 'a'] =
      some (built ['/', 'a']) := by decide
  have hmatch : (built ['/', 'a']).match? ['/', 'a', '\n'] = some [] := by decide
  refine ⟨built ['/', 'a'], hparse, hmatch, ?_⟩
  intro hexact
  have hexpand := (hexact.sound [] hmatch).2
  exact absurd hexpand (by decide)

end LocalPost.Http.Routing
