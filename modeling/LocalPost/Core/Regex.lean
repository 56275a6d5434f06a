import Mathlib.Data.List.Basic

/-!
# Regular expressions with named groups

The expressions of a backtracking engine over an alphabet `α`: `results` lists the ways to match in
the order in which the engine tries them, with the text of every group that was passed, and a match
is the first of them. The groups only record what was matched: `steps` computes where the ways to
match end without them (`map_at_results`), so the names of the groups never decide whether an
expression matches (`steps_relabel`).
-/

set_option autoImplicit false

namespace LocalPost.Core

universe u v w

/-- Expressions with letters in `α` and group names in `ν`. `plusNot c` is one or more letters other
than `c`, as many as possible; `finish nl` is the end of the text or its last letter, when that is
`nl`. -/
inductive Regex (α : Type u) (ν : Type v) where
  | empty
  | never
  | char (c : α)
  | plusNot (c : α)
  | start
  | finish (nl : α)
  | cat (a b : Regex α ν)
  | alt (a b : Regex α ν)
  | group (name : ν) (a : Regex α ν)
  deriving DecidableEq, Repr

namespace Regex

variable {α : Type u} {ν : Type v} {μ : Type w} [DecidableEq α]

/-- Where a match stands: the letters passed, the text that is left. -/
abbrev Place (α : Type u) := Nat × List α

/-- A partial match: its place and the groups passed. -/
structure Cursor (α : Type u) (ν : Type v) where
  pos : Nat
  rest : List α
  groups : List (ν × List α)
  deriving DecidableEq, Repr

/-- The place of a partial match. -/
def Cursor.at (s : Cursor α ν) : Place α := (s.pos, s.rest)

/-- What can be left of a text after one or more letters other than `c`, the shortest rest first. -/
def passNot (c : α) : List α → List (List α)
  | [] => []
  | d :: text => if d = c then [] else passNot c text ++ [text]

/-- The ways to match in the order of the engine. -/
def results : Regex α ν → Cursor α ν → List (Cursor α ν)
  | .empty, s => [s]
  | .never, _ => []
  | .char c, s =>
    match s.rest with
    | [] => []
    | d :: rest => if d = c then [⟨s.pos + 1, rest, s.groups⟩] else []
  | .plusNot c, s =>
    (passNot c s.rest).map fun rest => ⟨s.pos + (s.rest.length - rest.length), rest, s.groups⟩
  | .start, s => if s.pos = 0 then [s] else []
  | .finish nl, s => if s.rest = [] ∨ s.rest = [nl] then [s] else []
  | .cat a b, s => (a.results s).flatMap b.results
  | .alt a b, s => a.results s ++ b.results s
  | .group name a, s => (a.results s).map fun t =>
    ⟨t.pos, t.rest, t.groups ++ [(name, s.rest.take (t.pos - s.pos))]⟩

/-- The groups of the first match that begins at the start of `text`. -/
def match? (r : Regex α ν) (text : List α) : Option (List (ν × List α)) :=
  (r.results ⟨0, text, []⟩).head?.map (·.groups)

/-- Where the ways to match end. -/
def steps : Regex α ν → Place α → List (Place α)
  | .empty, p => [p]
  | .never, _ => []
  | .char c, p =>
    match p.2 with
    | [] => []
    | d :: rest => if d = c then [(p.1 + 1, rest)] else []
  | .plusNot c, p => (passNot c p.2).map fun rest => (p.1 + (p.2.length - rest.length), rest)
  | .start, p => if p.1 = 0 then [p] else []
  | .finish nl, p => if p.2 = [] ∨ p.2 = [nl] then [p] else []
  | .cat a b, p => (a.steps p).flatMap b.steps
  | .alt a b, p => a.steps p ++ b.steps p
  | .group _ a, p => a.steps p

/-- The expression matches at the start of `text`. -/
def Accepts (r : Regex α ν) (text : List α) : Prop := ∃ q, q ∈ r.steps (0, text)

/-- The groups change nothing about where the matches end. -/
theorem map_at_results (r : Regex α ν) (s : Cursor α ν) :
    (r.results s).map Cursor.at = r.steps s.at := by
  -- A cursor differs from its place only in the groups, which no constructor looks at.
  induction r generalizing s with
  | empty => rfl
  | never => rfl
  | char c =>
    obtain ⟨pos, text, groups⟩ := s
    cases text with
    | nil => rfl
    | cons d rest =>
      simp only [results, steps, Cursor.at]
      split <;> simp [Cursor.at]
  | plusNot c =>
    rw [results, List.map_map]
    rfl
  | start =>
    simp only [results, steps, Cursor.at]
    by_cases h : s.pos = 0 <;> simp [h, Cursor.at]
  | finish nl =>
    simp only [results, steps, Cursor.at]
    by_cases h : s.rest = [] ∨ s.rest = [nl] <;> simp [h, Cursor.at]
  -- the results of the first part are the starts of the second
  | cat a b iha ihb =>
    rw [results, steps, ← iha, List.map_flatMap, List.flatMap_map]
    exact List.flatMap_congr fun t _ => ihb t
  | alt a b iha ihb => rw [results, steps, List.map_append, iha, ihb]
  | group name a ih =>
    rw [results, steps, ← ih, List.map_map]
    rfl

/-- There is a match when the expression accepts the text. -/
theorem isSome_match_iff (r : Regex α ν) (text : List α) :
    (r.match? text).isSome = true ↔ r.Accepts text := by
  have hat : (r.results ⟨0, text, []⟩).map Cursor.at = r.steps (0, text) := r.map_at_results _
  rw [Accepts, ← hat, match?, Option.isSome_map, List.isSome_head?]
  cases r.results ⟨0, text, []⟩ with
  | nil => simp
  | cons t ts => simp

/-- The expression with other names for its groups. -/
def relabel (f : ν → μ) : Regex α ν → Regex α μ
  | .empty => .empty
  | .never => .never
  | .char c => .char c
  | .plusNot c => .plusNot c
  | .start => .start
  | .finish nl => .finish nl
  | .cat a b => .cat (a.relabel f) (b.relabel f)
  | .alt a b => .alt (a.relabel f) (b.relabel f)
  | .group name a => .group (f name) (a.relabel f)

theorem steps_relabel (f : ν → μ) (r : Regex α ν) (p : Place α) :
    (r.relabel f).steps p = r.steps p := by
  induction r generalizing p with
  | cat a b iha ihb =>
    rw [relabel, steps, steps, iha]
    exact List.flatMap_congr fun q _ => ihb q
  | alt a b iha ihb => rw [relabel, steps, steps, iha, ihb]
  | group name a ih => exact ih p
  | _ => rfl

/-! ## Sequences and alternatives -/

/-- One expression after the other. -/
def seq : List (Regex α ν) → Regex α ν
  | [] => .empty
  | r :: rs => .cat r (seq rs)

/-- The alternatives in the order in which they are tried. -/
def choice : List (Regex α ν) → Regex α ν
  | [] => .never
  | [r] => r
  | r :: rs => .alt r (choice rs)

theorem mem_steps_cat {a b : Regex α ν} {p q : Place α} :
    q ∈ (cat a b).steps p ↔ ∃ m ∈ a.steps p, q ∈ b.steps m := List.mem_flatMap

/-- A choice goes wherever one of its alternatives goes. -/
theorem mem_steps_choice {rs : List (Regex α ν)} {p q : Place α} :
    q ∈ (choice rs).steps p ↔ ∃ r ∈ rs, q ∈ r.steps p := by
  induction rs with
  | nil => simp [choice, steps]
  | cons r rs ih =>
    cases rs with
    | nil => simp [choice]
    | cons r' rs =>
      rw [choice, steps, List.mem_append, ih]
      · simp
      · exact List.cons_ne_nil r' rs

/-- A sequence of two lists goes through the one and then through the other. -/
theorem mem_steps_seq_append {as bs : List (Regex α ν)} {p q : Place α} :
    q ∈ (seq (as ++ bs)).steps p ↔ ∃ m ∈ (seq as).steps p, q ∈ (seq bs).steps m := by
  induction as generalizing p with
  | nil => simp [seq, steps]
  | cons a as ih =>
    rw [List.cons_append, seq, seq, mem_steps_cat]
    simp only [ih, mem_steps_cat]
    constructor
    · rintro ⟨m, hm, n, hn, hq⟩
      exact ⟨n, ⟨m, hm, hn⟩, hq⟩
    · rintro ⟨n, ⟨m, hm, hn⟩, hq⟩
      exact ⟨m, hm, n, hn, hq⟩

omit [DecidableEq α] in
theorem seq_relabel (f : ν → μ) (rs : List (Regex α ν)) :
    (seq rs).relabel f = seq (rs.map (relabel f)) := by
  induction rs with
  | nil => rfl
  | cons r rs ih => rw [seq, relabel, ih, List.map_cons, seq]

/-- An expression between `start` and `finish` accepts a text when one of its matches from the
beginning ends there. -/
theorem accepts_anchored {nl : α} {body : List (Regex α ν)} {text : List α} :
    (seq (start :: body ++ [finish nl])).Accepts text ↔
      ∃ q ∈ (seq body).steps (0, text), q.2 = [] ∨ q.2 = [nl] := by
  unfold Accepts
  rw [List.cons_append, seq]
  simp only [mem_steps_cat, mem_steps_seq_append]
  constructor
  · rintro ⟨q, m, hm, n, hn, hq⟩
    rw [steps, if_pos rfl, List.mem_singleton] at hm
    subst hm
    rw [seq, mem_steps_cat] at hq
    obtain ⟨m', hm', -⟩ := hq
    refine ⟨n, hn, ?_⟩
    by_contra hend
    rw [steps, if_neg hend] at hm'
    cases hm'
  · rintro ⟨q, hq, hend⟩
    refine ⟨q, (0, text), ?_, q, hq, ?_⟩
    · rw [steps, if_pos rfl]
      exact List.mem_singleton.2 rfl
    · rw [seq, mem_steps_cat]
      refine ⟨q, ?_, List.mem_singleton.2 rfl⟩
      rw [steps, if_pos hend]
      exact List.mem_singleton.2 rfl

/-! ## The order of the results -/

/-- What is left after `c`-free letters: the text without a part in front. -/
theorem mem_passNot {c : α} {text rest : List α} :
    rest ∈ passNot c text ↔ ∃ v, v ≠ [] ∧ c ∉ v ∧ text = v ++ rest := by
  induction text with
  | nil =>
    rw [passNot]
    constructor
    · intro h
      cases h
    · rintro ⟨v, hv, -, htext⟩
      exact absurd (List.append_eq_nil_iff.1 htext.symm).1 hv
  | cons d text ih =>
    rw [passNot]
    split
    -- the excluded character stands at the front: nothing can be passed
    · rename_i hd
      constructor
      · intro h
        cases h
      · rintro ⟨v, hv, hc, htext⟩
        cases v with
        | nil => exact absurd rfl hv
        | cons e v =>
          obtain ⟨rfl, -⟩ := List.cons.inj htext
          exact absurd (hd ▸ List.mem_cons_self) hc
    -- otherwise one character is passed, or it and what the rest of the text lets through
    · rename_i hd
      rw [List.mem_append, ih, List.mem_singleton]
      constructor
      · rintro (⟨v, -, hc, rfl⟩ | rfl)
        · exact ⟨d :: v, List.cons_ne_nil d v, by simp [Ne.symm hd, hc], rfl⟩
        · exact ⟨[d], List.cons_ne_nil d [], by simp [Ne.symm hd], rfl⟩
      · rintro ⟨v, hv, hc, htext⟩
        cases v with
        | nil => exact absurd rfl hv
        | cons e v =>
          obtain ⟨rfl, rfl⟩ := List.cons.inj htext
          by_cases hv' : v = []
          · subst hv'
            exact Or.inr rfl
          · exact Or.inl ⟨v, hv', fun h => hc (List.mem_cons_of_mem d h), rfl⟩

/-- The engine takes as many letters as it can first. -/
theorem pairwise_passNot (c : α) (text : List α) :
    (passNot c text).Pairwise fun a b => a.length < b.length := by
  induction text with
  | nil => exact List.Pairwise.nil
  | cons d text ih =>
    rw [passNot]
    split
    · exact List.Pairwise.nil
    · rw [List.pairwise_append]
      refine ⟨ih, List.pairwise_singleton _ _, ?_⟩
      intro rest hrest b hb
      obtain ⟨v, hv, -, rfl⟩ := mem_passNot.1 hrest
      rw [List.mem_singleton.1 hb, List.length_append]
      have hpos : 0 < v.length := List.length_pos_iff.2 hv
      omega

theorem results_seq_append (as bs : List (Regex α ν)) (s : Cursor α ν) :
    (seq (as ++ bs)).results s = ((seq as).results s).flatMap (seq bs).results := by
  induction as generalizing s with
  | nil => simp [seq, results]
  | cons a as ih =>
    rw [List.cons_append, seq, seq, results, results, List.flatMap_assoc]
    exact List.flatMap_congr fun t _ => ih t

/-- The match may end here when `finish nl` follows. -/
def Cursor.ends (nl : α) (s : Cursor α ν) : Bool := s.rest = [] ∨ s.rest = [nl]

/-- The first match of an expression between `start` and `finish`. -/
theorem head?_results_anchored {nl : α} {body : List (Regex α ν)} {text : List α} :
    ((seq (start :: body ++ [finish nl])).results ⟨0, text, []⟩).head? =
      ((seq body).results ⟨0, text, []⟩).find? (Cursor.ends nl) := by
  have hfinish : (seq [finish nl]).results =
      fun s : Cursor α ν => if s.ends nl = true then [s] else [] := by
    funext s
    simp [seq, results, Cursor.ends]
  rw [List.cons_append, seq, results, results, if_pos rfl, List.flatMap_singleton,
    results_seq_append, hfinish, List.head?_flatMap]
  induction (seq body).results ⟨0, text, []⟩ with
  | nil => rfl
  | cons t ts ih =>
    rw [List.findSome?_cons, List.find?_cons, ih]
    cases t.ends nl with
    | false => rfl
    | true => rfl

/-- Every name of a group is among `P`. -/
def Named (P : ν → Prop) : Regex α ν → Prop
  | .cat a b | .alt a b => a.Named P ∧ b.Named P
  | .group name a => P name ∧ a.Named P
  | _ => True

/-- The groups passed bear names of the expression. -/
theorem named_results {P : ν → Prop} (r : Regex α ν) (hr : r.Named P) (s t : Cursor α ν)
    (ht : t ∈ r.results s) (hs : ∀ e ∈ s.groups, P e.1) : ∀ e ∈ t.groups, P e.1 := by
  induction r generalizing s t with
  | empty =>
    rw [results, List.mem_singleton] at ht
    exact ht ▸ hs
  | never => cases ht
  | char c =>
    rw [results] at ht
    split at ht
    · cases ht
    · split at ht
      · rw [List.mem_singleton] at ht
        subst ht
        exact hs
      · cases ht
  | plusNot c =>
    rw [results, List.mem_map] at ht
    obtain ⟨rest, -, rfl⟩ := ht
    exact hs
  | start =>
    rw [results] at ht
    split at ht
    · exact List.mem_singleton.1 ht ▸ hs
    · cases ht
  | finish nl =>
    rw [results] at ht
    split at ht
    · exact List.mem_singleton.1 ht ▸ hs
    · cases ht
  -- The first half passes its groups on to the second.
  | cat a b iha ihb =>
    rw [results, List.mem_flatMap] at ht
    obtain ⟨m, hm, ht⟩ := ht
    exact ihb hr.2 m t ht (iha hr.1 s m hm hs)
  | alt a b iha ihb =>
    rw [results, List.mem_append] at ht
    cases ht with
    | inl ht => exact iha hr.1 s t ht hs
    | inr ht => exact ihb hr.2 s t ht hs
  -- The only case that adds a group.
  | group name a ih =>
    rw [results, List.mem_map] at ht
    obtain ⟨m, hm, rfl⟩ := ht
    intro e he
    rw [List.mem_append, List.mem_singleton] at he
    cases he with
    | inl he => exact ih hr.2 s m hm hs e he
    | inr he => exact he ▸ hr.1

omit [DecidableEq α] in
theorem named_seq {P : ν → Prop} {rs : List (Regex α ν)} :
    (seq rs).Named P ↔ ∀ r ∈ rs, r.Named P := by
  induction rs with
  | nil => simp [seq, Named]
  | cons r rs ih => rw [seq, Named, ih, List.forall_mem_cons]

omit [DecidableEq α] in
theorem named_choice {P : ν → Prop} {rs : List (Regex α ν)} (h : ∀ r ∈ rs, r.Named P) :
    (choice rs).Named P := by
  induction rs with
  | nil => trivial
  | cons r rs ih =>
    cases rs with
    | nil => exact h r List.mem_cons_self
    | cons r' rs => exact ⟨h r List.mem_cons_self, ih fun q hq => h q (List.mem_cons_of_mem r hq)⟩

end Regex

end LocalPost.Core
