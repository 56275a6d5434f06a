import LocalPost.Http.Routing.Routes
import Mathlib.Data.List.TakeWhile

/-!
# The combined pattern

The alternation of all templates with a prefix of its own for the groups of each. The prefixes keep
the names apart (`nodup_groups`), so the pattern compiles, and it accepts a path exactly when one of
the templates fits it (`compileCombined_accepts`).
-/

set_option autoImplicit false

namespace LocalPost.Http.Routing

open LocalPost.Core

variable {U : Unicode}

/-! ## Prefixes -/

theorem groupPrefix_injective {i j : Nat} (h : groupPrefix i = groupPrefix j) : i = j := by
  have hdigits : Nat.toDigits 10 i = Nat.toDigits 10 j := (List.cons.inj h).2
  rw [← @Nat.ofDigitChars_ten_toDigits i, hdigits, Nat.ofDigitChars_ten_toDigits]

theorem underscore_notMem_groupPrefix (i : Nat) : '_' ∉ groupPrefix i := by
  intro h
  rcases List.mem_cons.1 h with h | h
  · exact absurd h (by decide)
  · exact Nat.underscore_not_in_toDigits h

theorem ne_underscore {i : Nat} : ∀ c ∈ groupPrefix i, decide (c ≠ '_') = true := by
  intro c hc
  rw [decide_eq_true_eq]
  rintro rfl
  exact underscore_notMem_groupPrefix i hc

/-- The prefix of a name ends at its first underscore. -/
theorem takeWhile_prefixed (i : Nat) (name : Str) :
    (prefixed (groupPrefix i) name).takeWhile (· ≠ '_') = groupPrefix i := by
  rw [prefixed, List.takeWhile_append_of_pos ne_underscore, List.takeWhile_cons_of_neg (by simp),
    List.append_nil]

theorem prefixed_injective (pre : Str) : Function.Injective (prefixed pre) := by
  intro a b h
  exact (List.cons.inj (List.append_cancel_left h)).2

/-- The names of the groups of one alternative. -/
def altNames (i : Nat) (t : URITemplate) : List Str :=
  groupPrefix i :: (variableNames (pieces none t.template)).map (prefixed (groupPrefix i))

/-- The names of all groups. -/
def allNames : Nat → List URITemplate → List Str
  | _, [] => []
  | i, t :: ts => altNames i t ++ allNames (i + 1) ts

theorem takeWhile_of_mem_altNames {i : Nat} {t : URITemplate} {name : Str}
    (h : name ∈ altNames i t) : name.takeWhile (· ≠ '_') = groupPrefix i := by
  rcases List.mem_cons.1 h with rfl | h
  · exact List.takeWhile_eq_self_iff.2 ne_underscore
  · obtain ⟨v, -, rfl⟩ := List.mem_map.1 h
    exact takeWhile_prefixed i v

theorem exists_of_mem_allNames {i : Nat} {ts : List URITemplate} {name : Str}
    (h : name ∈ allNames i ts) : ∃ j, i ≤ j ∧ name.takeWhile (· ≠ '_') = groupPrefix j := by
  induction ts generalizing i with
  | nil => cases h
  | cons t ts ih =>
    rcases List.mem_append.1 h with h | h
    · exact ⟨i, Nat.le_refl i, takeWhile_of_mem_altNames h⟩
    · obtain ⟨j, hj, heq⟩ := ih h
      exact ⟨j, by omega, heq⟩

theorem nodup_altNames {i : Nat} {t : URITemplate}
    (h : (variableNames (pieces none t.template)).Nodup) : (altNames i t).Nodup := by
  rw [altNames, List.nodup_cons]
  refine ⟨fun hmem => ?_, h.map (prefixed_injective _)⟩
  -- A prefixed name is longer than the prefix.
  obtain ⟨v, -, hv⟩ := List.mem_map.1 hmem
  have hlen := congrArg List.length hv
  simp [prefixed] at hlen

/-- No two groups of the combined pattern share a name. -/
theorem nodup_groups {i : Nat} {ts : List URITemplate}
    (h : ∀ t ∈ ts, (variableNames (pieces none t.template)).Nodup) : (allNames i ts).Nodup := by
  induction ts generalizing i with
  | nil => exact List.nodup_nil
  | cons t ts ih =>
    rw [List.forall_mem_cons] at h
    rw [allNames, List.nodup_append]
    refine ⟨nodup_altNames h.1, ih h.2, fun a ha b hb => ?_⟩
    rintro rfl
    obtain ⟨j, hj, heq⟩ := exists_of_mem_allNames hb
    have hij := groupPrefix_injective ((takeWhile_of_mem_altNames ha).symm.trans heq)
    omega

theorem continues_groupPrefix {i : Nat} {c : Char} (h : c ∈ Nat.toDigits 10 i) :
    U.continues c = true := by
  have hdigit : c.isDigit = true := Nat.isDigit_of_mem_toDigits (by decide) (by decide) h
  simp [Unicode.continues, hdigit]

theorem isIdentifier_groupPrefix (i : Nat) : U.isIdentifier (groupPrefix i) = true := by
  rw [groupPrefix, Unicode.isIdentifier, Bool.and_eq_true, List.all_eq_true]
  exact ⟨by simp [Unicode.starts], fun c hc => continues_groupPrefix hc⟩

/-- An identifier stays one behind a prefix. -/
theorem isIdentifier_prefixed (i : Nat) {name : Str} (h : U.isIdentifier name = true) :
    U.isIdentifier (prefixed (groupPrefix i) name) = true := by
  cases name with
  | nil => cases h
  | cons c cs =>
    rw [Unicode.isIdentifier, Bool.and_eq_true, List.all_eq_true] at h
    rw [prefixed, groupPrefix, List.cons_append, Unicode.isIdentifier, Bool.and_eq_true,
      List.all_eq_true]
    refine ⟨by simp [Unicode.starts], fun d hd => ?_⟩
    rcases List.mem_append.1 hd with hd | hd
    · exact continues_groupPrefix hd
    · rcases List.mem_cons.1 hd with rfl | hd
      · simp [Unicode.continues, Unicode.starts]
      · rcases List.mem_cons.1 hd with rfl | hd
        · simp [Unicode.continues, h.1]
        · exact h.2 d hd

/-- The router's templates: names without `>`, distinct identifiers. -/
def Wellformed (U : Unicode) (t : URITemplate) : Prop :=
  PlainNames (pieces none t.template) ∧
    (variableNames (pieces none t.template)).all U.isIdentifier = true ∧
    (variableNames (pieces none t.template)).Nodup

/-- The names of all groups are identifiers. -/
theorem isIdentifier_of_mem_allNames {i : Nat} {ts : List URITemplate}
    (h : ∀ t ∈ ts, Wellformed U t) {name : Str} (hname : name ∈ allNames i ts) :
    U.isIdentifier name = true := by
  induction ts generalizing i with
  | nil => cases hname
  | cons t ts ih =>
    rw [List.forall_mem_cons] at h
    rcases List.mem_append.1 hname with hname | hname
    · rcases List.mem_cons.1 hname with rfl | hname
      · exact isIdentifier_groupPrefix i
      · obtain ⟨v, hv, rfl⟩ := List.mem_map.1 hname
        exact isIdentifier_prefixed i (List.all_eq_true.1 h.1.2.1 v hv)
    · exact ih h.2 hname

/-! ## Reading the alternation -/

/-- The tokens of one alternative. -/
def altTokens (i : Nat) (t : URITemplate) : List Token :=
  .openGroup (some (groupPrefix i)) ::
    ((pieces none t.template).flatMap (Piece.tokens (prefixed (groupPrefix i))) ++ [.close])

/-- The tokens of all alternatives. -/
def allTokens : Nat → List URITemplate → List Token
  | _, [] => []
  | i, [t] => altTokens i t
  | i, t :: ts => altTokens i t ++ .bar :: allTokens (i + 1) ts

/-- The expression of one alternative. -/
def altRegex (i : Nat) (t : URITemplate) : Re :=
  .group (groupPrefix i)
    (Regex.seq ((pieces none t.template).map (Piece.regex (prefixed (groupPrefix i)))))

/-- The expressions of all alternatives. -/
def allRegex : Nat → List URITemplate → List Re
  | _, [] => []
  | i, t :: ts => altRegex i t :: allRegex (i + 1) ts

theorem groupPrefix_plain (i : Nat) : '>' ∉ groupPrefix i := by
  intro h
  rcases List.mem_cons.1 h with h | h
  · exact absurd h (by decide)
  · have hdigit := Nat.isDigit_of_mem_toDigits (by decide) (by decide) h
    exact absurd hdigit (by decide)

/-- The pattern of an alternative is read token by token. -/
theorem lex_alternative (i : Nat) {t : URITemplate} (h : PlainNames (pieces none t.template))
    (rest : Str) :
    lex .normal (alternative i t ++ rest) = (lex .normal rest).map (altTokens i t ++ ·) := by
  have hplain : ∀ name ∈ variableNames (pieces none t.template),
      '>' ∉ prefixed (groupPrefix i) name := by
    intro name hname hmem
    rcases List.mem_append.1 hmem with hmem | hmem
    · exact groupPrefix_plain i hmem
    · rcases List.mem_cons.1 hmem with hmem | hmem
      · exact absurd hmem (by decide)
      · exact h name hname hmem
  rw [alternative, List.append_assoc, lex_groupStart _ _ (groupPrefix_plain i), List.append_assoc,
    reprefixedRegexSource, lex_source hplain, List.singleton_append, lex_close, Option.map_map,
    Option.map_map]
  congr 1
  funext ts
  simp [altTokens]

/-- The alternatives are read token by token, with the bars between them. -/
theorem lex_alternatives {i : Nat} {ts : List URITemplate}
    (h : ∀ t ∈ ts, PlainNames (pieces none t.template)) (rest : Str) :
    lex .normal (((alternatives i ts).intersperse ['|']).flatten ++ rest) =
      (lex .normal rest).map (allTokens i ts ++ ·) := by
  induction ts generalizing i with
  | nil => simp [alternatives, allTokens]
  | cons t ts ih =>
    rw [List.forall_mem_cons] at h
    cases ts with
    | nil =>
      simp only [alternatives, List.intersperse_singleton, List.flatten_cons, List.flatten_nil,
        List.append_nil, allTokens]
      exact lex_alternative i h.1 rest
    | cons u ts =>
      have hrest := ih (i := i + 1) h.2
      rw [alternatives] at hrest ⊢
      rw [alternatives, List.intersperse_cons_cons, List.flatten_cons, List.flatten_cons,
        List.append_assoc, List.append_assoc, lex_alternative i h.1, List.singleton_append, lex_bar,
        hrest, Option.map_map, Option.map_map]
      congr 1
      funext ts'
      simp [allTokens]

theorem parse_alternative (stack : List Frame) (f : Frame) (i : Nat) (t : URITemplate)
    (rest : List Token) :
    parse stack f (altTokens i t ++ rest) = parse stack (f.append [altRegex i t]) rest := by
  rw [altTokens, List.cons_append, List.append_assoc, List.singleton_append, ← List.cons_append]
  exact parse_group stack f _ _ _ rest fun stack f rest => parse_tokens stack f rest

/-- The alternatives end up as the alternatives of the group around them. -/
theorem parse_alternatives (stack : List Frame) (f : Frame) (hf : f.items = []) (i : Nat)
    (t : URITemplate) (ts : List URITemplate) :
    ∃ g : Frame, g.name = f.name ∧
      g.alts ++ [g.items] = f.alts ++ (allRegex i (t :: ts)).map (fun r => [r]) ∧
      ∀ rest, parse stack f (allTokens i (t :: ts) ++ rest) = parse stack g rest := by
  induction ts generalizing f i t with
  | nil =>
    refine ⟨f.append [altRegex i t], rfl, ?_, fun rest => parse_alternative stack f i t rest⟩
    simp [Frame.append, hf, allRegex]
  | cons u ts ih =>
    obtain ⟨g, hname, halts, hparse⟩ := ih ((f.append [altRegex i t]).nextAlt) rfl (i + 1) u
    refine ⟨g, hname, ?_, fun rest => ?_⟩
    · rw [halts]
      simp [Frame.nextAlt, Frame.append, hf, allRegex]
    · rw [allTokens, List.append_assoc, parse_alternative, List.cons_append, parse_bar]
      · exact hparse rest
      · exact List.cons_ne_nil u ts

theorem groupNames_altTokens (i : Nat) (t : URITemplate) :
    groupNames (altTokens i t) = altNames i t := by
  rw [altTokens, groupNames, groupNames_append, groupNames_tokens]
  simp [altNames, groupNames]

/-- The groups of the pattern are those of the alternatives, under their numbered names. -/
theorem groupNames_allTokens (i : Nat) (ts : List URITemplate) :
    groupNames (allTokens i ts) = allNames i ts := by
  induction ts generalizing i with
  | nil => rfl
  | cons t ts ih =>
    cases ts with
    | nil => simp [allTokens, allNames, groupNames_altTokens]
    | cons u ts =>
      rw [allTokens, groupNames_append, groupNames_altTokens, groupNames.eq_3 _ _ (by simp), ih]
      · rfl
      · exact List.cons_ne_nil u ts

/-- The combined pattern of well-formed templates compiles to an alternation. -/
theorem compile_combined {t : URITemplate} {ts : List URITemplate}
    (h : ∀ u ∈ t :: ts, Wellformed U u) :
    compile U (combinedSource (alternatives 0 (t :: ts))) =
      some (Regex.seq ([.start] ++
        [Regex.choice ((allRegex 0 (t :: ts)).map fun r => Regex.seq [r])] ++ [.finish '\n'])) := by
  -- the source in three steps: its tokens, the names of its groups, and the tree
  have hlex : lex .normal (combinedSource (alternatives 0 (t :: ts))) =
      some (.item .start :: .openGroup none ::
        (allTokens 0 (t :: ts) ++ [.close, .item (.finish '\n')])) := by
    change ((lex .normal (_ ++ ")$".toList)).map _).map _ = _
    rw [lex_alternatives fun u hu => (h u hu).1]
    rfl
  have hnames : groupNames (.item .start :: .openGroup none ::
      (allTokens 0 (t :: ts) ++ [.close, .item (.finish '\n')])) = allNames 0 (t :: ts) := by
    rw [groupNames.eq_3 _ _ (by simp), groupNames.eq_3 _ _ (by simp), groupNames_append,
      groupNames_allTokens]
    exact List.append_nil _
  obtain ⟨g, hname, halts, hparse⟩ :=
    parse_alternatives [(Frame.new none).append [.start]] (.new none) rfl 0 t ts
  have hidentifiers : (allNames 0 (t :: ts)).all U.isIdentifier = true :=
    List.all_eq_true.2 fun name hmem => isIdentifier_of_mem_allNames h hmem
  rw [compile, hlex, Option.bind_some, hnames,
    if_pos ⟨hidentifiers, nodup_groups fun u hu => (h u hu).2.2⟩, parse_item, parse_openGroup,
    hparse, parse_close, parse_item]
  -- the group in the middle is the alternative of the templates' trees
  have hregex : g.regex = Regex.choice ((allRegex 0 (t :: ts)).map fun r => Regex.seq [r]) := by
    simp only [Frame.regex, hname, halts]
    simp [Frame.new, Function.comp_def]
  rw [hregex]
  rfl

/-- The alternatives of the pattern are those of the templates, by their numbers. -/
theorem mem_allRegex {i : Nat} {ts : List URITemplate} {r : Re} :
    r ∈ allRegex i ts ↔ ∃ j u, ts[j]? = some u ∧ r = altRegex (i + j) u := by
  induction ts generalizing i with
  | nil => simp [allRegex]
  | cons t ts ih =>
    rw [allRegex, List.mem_cons, ih]
    constructor
    · rintro (rfl | ⟨j, u, hu, rfl⟩)
      · exact ⟨0, t, rfl, rfl⟩
      · refine ⟨j + 1, u, hu, ?_⟩
        rw [Nat.add_assoc, Nat.add_comm 1 j]
    · rintro ⟨j, u, hu, rfl⟩
      cases j with
      | zero =>
        cases hu
        exact .inl rfl
      | succ j =>
        refine .inr ⟨j, u, hu, ?_⟩
        rw [Nat.add_assoc, Nat.add_comm 1 j]

/-- The combined pattern compiles, and it accepts a path exactly when a template fits the path. -/
theorem compileCombined_accepts {ts : List URITemplate} (h : ∀ t ∈ ts, Wellformed U t) :
    ∃ r, Router.compileCombined U ts = some r ∧
      ∀ path, r.Accepts path ↔ ∃ t ∈ ts, Fits (pieces none t.template) path := by
  cases ts with
  | nil =>
    refine ⟨Router.matchNothing, rfl, fun path => ?_⟩
    constructor
    · rintro ⟨q, hq⟩
      simp [Router.matchNothing, Regex.seq, Regex.steps] at hq
    · rintro ⟨t, ht, -⟩
      cases ht
  | cons t ts =>
    refine ⟨_, (if_neg (List.cons_ne_nil t ts)).trans (compile_combined h), fun path => ?_⟩
    rw [List.singleton_append, Regex.accepts_anchored]
    -- The renamed groups play no part in where a match can end.
    have hsteps : ∀ q, q ∈ (Regex.seq [Regex.choice ((allRegex 0 (t :: ts)).map fun r =>
        Regex.seq [r])]).steps (0, path) ↔
        ∃ u ∈ t :: ts, q ∈ (Regex.seq ((pieces none u.template).map (Piece.regex id))).steps
          (0, path) := by
      intro q
      have hseq : ∀ (r : Re) (p : Regex.Place Char),
          q ∈ (Regex.seq [r]).steps p ↔ q ∈ r.steps p := by
        intro r p
        simp [Regex.seq, Regex.steps]
      rw [hseq, Regex.mem_steps_choice]
      constructor
      · rintro ⟨r', hr', hq⟩
        obtain ⟨r, hr, rfl⟩ := List.mem_map.1 hr'
        obtain ⟨j, u, hu, rfl⟩ := mem_allRegex.1 hr
        refine ⟨u, List.mem_of_getElem? hu, ?_⟩
        rw [hseq, altRegex, Regex.steps, steps_rename] at hq
        exact hq
      · rintro ⟨u, hu, hq⟩
        obtain ⟨j, hj⟩ := List.mem_iff_getElem?.1 hu
        refine ⟨_, List.mem_map_of_mem (mem_allRegex.2 ⟨j, u, hj, rfl⟩), ?_⟩
        rw [hseq, altRegex, Regex.steps, steps_rename]
        exact hq
    simp only [hsteps, Fits]
    constructor
    · rintro ⟨q, ⟨u, hu, hq⟩, hend⟩
      exact ⟨u, hu, q, hq, hend⟩
    · rintro ⟨u, hu, q, hq, hend⟩
      exact ⟨q, ⟨u, hu, hq⟩, hend⟩

end LocalPost.Http.Routing
