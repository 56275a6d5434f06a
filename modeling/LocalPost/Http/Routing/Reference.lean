import LocalPost.Http.Routing.Routes
import LocalPost.Core.StableSort
import Mathlib.Data.List.Induction

/-!
# The reference for dispatch

What a sequence of `Routes.add` calls says about a request, without tables, sorting or a combined
pattern: `Decides` is stated over the list of the registrations that did not raise. `Built` connects
the table that the calls build with that list.
-/

set_option autoImplicit false

namespace LocalPost.Http.Routing

open LocalPost.Core

universe u

variable {H : Type u}

/-- A call of `Routes.add`. -/
structure Registration (H : Type u) where
  method : MethodArg
  template : Str
  handler : H

/-- The builder after a sequence of calls; one that raises leaves it as it was. -/
def Routes.registered (U : Unicode) (regs : List (Registration H)) : Routes H :=
  regs.foldl (fun rs r => (rs.add U r.method r.template r.handler).getD rs) ⟨[]⟩

/-- A registration that does not raise: method, template, handler. -/
abbrev Entry (H : Type u) := HTTPMethod × URITemplate × H

/-- What a call registers. -/
def Registration.entry (U : Unicode) (r : Registration H) : Option (Entry H) :=
  (r.method.toMethod U).bind fun m =>
    (URITemplate.parse U r.template).map fun t => (m, t, r.handler)

/-- The registrations in order. -/
def entries (U : Unicode) (regs : List (Registration H)) : List (Entry H) :=
  regs.filterMap (Registration.entry U)

/-- What a request comes to. -/
inductive Verdict (H : Type u) where
  | handled (handler : H) (found : RouteMatch)
  | methodNotAllowed (allow : Str)
  | notFound

/-- What the router does with a request that comes to it. -/
def Verdict.outcome : Verdict H → Outcome H
  | .handled handler found => .handled handler found
  | .methodNotAllowed allow =>
    .answered (buildMethodNotAllowed allow).1 (buildMethodNotAllowed allow).2
  | .notFound => .answered notFoundResponse notFoundBody

namespace Reference

/-- The template was registered. -/
def Registered (es : List (Entry H)) (t : URITemplate) : Prop := ∃ e ∈ es, e.2.1 = t

/-- The handler of a method and a template: the one that was registered last. -/
def handler? (es : List (Entry H)) (m : HTTPMethod) (t : URITemplate) : Option H :=
  (es.reverse.find? fun e => e.1 = m ∧ e.2.1 = t).map fun e => e.2.2

/-- When the template was first registered. -/
def position (es : List (Entry H)) (t : URITemplate) : Nat := es.findIdx fun e => e.2.1 = t

/-- The order of dispatch: the longer literal prefix, then the earlier registration. -/
def Precedes (es : List (Entry H)) (t u : URITemplate) : Prop :=
  KeyOrder literalPrefixLen (fun t u => position es t < position es u) t u

/-- The template matches the path. -/
def Matches (t : URITemplate) (path : Str) : Prop := (t.match? path).isSome = true

/-- The header lists exactly the methods with `p`, each once and sorted by its value. -/
def AllowOf (p : HTTPMethod → Prop) (header : Str) : Prop :=
  ∃ methods : List HTTPMethod, methods.Pairwise (fun a b => a.value < b.value) ∧
    (∀ m, m ∈ methods ↔ p m) ∧ header = joinAllow methods

/-- The right verdict on a request, with the templates taken in the order `before`. The handler that
runs is that of the first template that matches and has the method. Else a 405 lists the methods of
all templates that match; without such a template it is a 404. -/
def Decides (es : List (Entry H)) (before : URITemplate → URITemplate → Prop)
    (path methodStr : Str) : Verdict H → Prop
  | .handled handler found =>
    HTTPMethod.ofValue methodStr = some found.method ∧
      Registered es found.matched_template ∧
      found.matched_template.match? path = some found.path_args ∧
      handler? es found.method found.matched_template = some handler ∧
      ∀ t, Matches t path → (handler? es found.method t).isSome = true →
        t = found.matched_template ∨ before found.matched_template t
  | .methodNotAllowed allow =>
    (∀ m t, HTTPMethod.ofValue methodStr = some m → Matches t path → handler? es m t = none) ∧
      (∃ t, Registered es t ∧ Matches t path) ∧
      AllowOf (fun m => ∃ t, Matches t path ∧ (handler? es m t).isSome = true) allow
  | .notFound => ∀ t, Registered es t → ¬Matches t path

theorem registered_concat {es : List (Entry H)} {e : Entry H} {t : URITemplate} :
    Registered (es ++ [e]) t ↔ Registered es t ∨ e.2.1 = t := by
  simp [Registered, or_and_right, exists_or]

theorem handler?_concat (es : List (Entry H)) (e : Entry H) (m : HTTPMethod) (t : URITemplate) :
    handler? (es ++ [e]) m t = if e.1 = m ∧ e.2.1 = t then some e.2.2 else handler? es m t := by
  rw [handler?, List.reverse_append, List.reverse_singleton, List.singleton_append, List.find?_cons]
  by_cases h : e.1 = m ∧ e.2.1 = t
  · rw [if_pos h]
    simp [h]
  · rw [if_neg h]
    simp [h, handler?]

theorem position_concat_of_registered {es : List (Entry H)} {t : URITemplate}
    (h : Registered es t) (e : Entry H) : position (es ++ [e]) t = position es t := by
  obtain ⟨x, hx, ht⟩ := h
  rw [position, List.findIdx_append, if_pos]
  · rfl
  · exact List.findIdx_lt_length_of_exists ⟨x, hx, by simpa using ht⟩

theorem position_lt_of_registered {es : List (Entry H)} {t : URITemplate} (h : Registered es t) :
    position es t < es.length := by
  obtain ⟨x, hx, ht⟩ := h
  exact List.findIdx_lt_length_of_exists ⟨x, hx, by simpa using ht⟩

theorem le_position_concat {es : List (Entry H)} {t : URITemplate} (h : ¬Registered es t)
    (e : Entry H) : es.length ≤ position (es ++ [e]) t := by
  have hlen : es.findIdx (fun e => e.2.1 = t) = es.length :=
    List.findIdx_eq_length.2 fun x hx => by
      rw [decide_eq_false_iff_not]
      exact fun ht => h ⟨x, hx, ht⟩
  rw [position, List.findIdx_append, hlen, if_neg (Nat.lt_irrefl _)]
  exact Nat.le_add_left _ _

theorem registered_of_handler? {es : List (Entry H)} {m : HTTPMethod} {t : URITemplate}
    (h : (handler? es m t).isSome = true) : Registered es t := by
  rw [handler?, Option.isSome_map, List.find?_isSome] at h
  obtain ⟨e, he, hmt⟩ := h
  exact ⟨e, List.mem_reverse.1 he, (decide_eq_true_iff.1 hmt).2⟩

theorem exists_handler? {es : List (Entry H)} {t : URITemplate} (h : Registered es t) :
    ∃ m, (handler? es m t).isSome = true := by
  obtain ⟨e, he, ht⟩ := h
  refine ⟨e.1, ?_⟩
  rw [handler?, Option.isSome_map, List.find?_isSome]
  exact ⟨e, List.mem_reverse.2 he, by simp [ht]⟩

end Reference

/-! ## The table of the builder -/

open Reference

variable {U : Unicode}

theorem URITemplate.template_of_parse {s : Str} {t : URITemplate}
    (h : URITemplate.parse U s = some t) : t.template = s := by
  obtain ⟨r, -, rfl⟩ := Option.map_eq_some_iff.1 h
  rfl

/-- The table that the registrations `es` build. -/
structure Built (U : Unicode) (es : List (Entry H)) (paths : Dict URITemplate (MethodMap H)) :
    Prop where
  parsed : ∀ t ∈ Dict.keys paths, URITemplate.parse U t.template = some t
  mem_keys : ∀ t, t ∈ Dict.keys paths ↔ Registered es t
  nodup : (Dict.keys paths).Nodup
  get : ∀ t m, (Dict.get? t paths).bind (Dict.get? m) = handler? es m t
  methods_nodup : ∀ t ms, Dict.get? t paths = some ms → (Dict.keys ms).Nodup
  sorted : (Dict.keys paths).Pairwise fun t u => position es t < position es u

/-- What one registration does to the table. -/
def insertEntry (paths : Dict URITemplate (MethodMap H)) (e : Entry H) :
    Dict URITemplate (MethodMap H) :=
  Dict.set e.2.1 (Dict.set e.1 e.2.2 ((Dict.get? e.2.1 paths).getD [])) paths

theorem entries_concat (regs : List (Registration H)) (r : Registration H) :
    entries U (regs ++ [r]) = entries U regs ++ (r.entry U).toList := by
  rw [entries, List.filterMap_append, List.filterMap_cons]
  cases r.entry U with
  | none => rfl
  | some e => rfl

theorem parse_of_entry {r : Registration H} {e : Entry H} (h : r.entry U = some e) :
    URITemplate.parse U e.2.1.template = some e.2.1 := by
  obtain ⟨m, -, hm⟩ := Option.bind_eq_some_iff.1 h
  obtain ⟨t, ht, rfl⟩ := Option.map_eq_some_iff.1 hm
  change URITemplate.parse U t.template = some t
  rw [URITemplate.template_of_parse ht, ht]

namespace Built

theorem nil : Built U ([] : List (Entry H)) [] where
  parsed t ht := by cases ht
  mem_keys t := by simp [Registered, Dict.keys]
  nodup := List.nodup_nil
  get t m := rfl
  methods_nodup t ms h := by cases h
  sorted := List.Pairwise.nil

/-- A registration adds its entry to those of the table. -/
theorem insertEntry {es : List (Entry H)} {paths : Dict URITemplate (MethodMap H)}
    (h : Built U es paths) {e : Entry H} (he : URITemplate.parse U e.2.1.template = some e.2.1) :
    Built U (es ++ [e]) (insertEntry paths e) where
  parsed t ht := by
    rcases Dict.mem_keys_set.1 ht with rfl | ht
    · exact he
    · exact h.parsed t ht
  mem_keys t := by
    rw [Routing.insertEntry, Dict.mem_keys_set, h.mem_keys, registered_concat, or_comm, eq_comm]
  nodup := Dict.nodup_keys_set h.nodup
  get t m := by
    rw [Routing.insertEntry, Dict.get?_set, handler?_concat]
    by_cases ht : e.2.1 = t
    · subst ht
      rw [if_pos rfl, Option.bind_some, Dict.get?_set, ← h.get]
      by_cases hm : e.1 = m
      · rw [if_pos hm, if_pos ⟨hm, rfl⟩]
      · rw [if_neg hm, if_neg fun hc => hm hc.1]
        cases Dict.get? e.2.1 paths with
        | none => rfl
        | some ms => rfl
    · rw [if_neg ht, if_neg fun hc => ht hc.2, h.get]
  methods_nodup t ms hms := by
    rw [Routing.insertEntry, Dict.get?_set] at hms
    split at hms
    · cases hms
      apply Dict.nodup_keys_set
      cases hold : Dict.get? e.2.1 paths with
      | none => exact List.nodup_nil
      | some ms => exact h.methods_nodup _ ms hold
    · exact h.methods_nodup t ms hms
  sorted := by
    have hold : (Dict.keys paths).Pairwise fun t u =>
        position (es ++ [e]) t < position (es ++ [e]) u := by
      refine h.sorted.imp_of_mem fun ht hu hlt => ?_
      rw [position_concat_of_registered ((h.mem_keys _).1 ht),
        position_concat_of_registered ((h.mem_keys _).1 hu)]
      exact hlt
    rw [Routing.insertEntry, Dict.keys_set]
    split
    · exact hold
    -- A new template comes behind all that were registered before.
    · rename_i hnew
      rw [List.pairwise_append]
      refine ⟨hold, List.pairwise_singleton _ _, fun t ht u hu => ?_⟩
      rw [List.mem_singleton.1 hu, position_concat_of_registered ((h.mem_keys t).1 ht)]
      exact Nat.lt_of_lt_of_le (position_lt_of_registered ((h.mem_keys t).1 ht))
        (le_position_concat (fun hr => hnew ((h.mem_keys _).2 hr)) e)

/-- Looking a template up and parsing it give the same. -/
theorem find_or_parse {es : List (Entry H)} {paths : Dict URITemplate (MethodMap H)}
    (h : Built U es paths) (s : Str) :
    (Routes.findTemplate paths s).or (URITemplate.parse U s) = URITemplate.parse U s := by
  cases hfind : Routes.findTemplate paths s with
  | none => rfl
  | some t =>
    have ht : t.template = s := by simpa using List.find?_some hfind
    rw [Option.some_or, ← h.parsed t (List.mem_of_find?_eq_some hfind), ht]

/-- A call of `add` registers its entry or raises. -/
theorem add_eq {es : List (Entry H)} {rs : Routes H} (h : Built U es rs.paths)
    (r : Registration H) :
    rs.add U r.method r.template r.handler =
      (r.entry U).map fun e => ⟨Routing.insertEntry rs.paths e⟩ := by
  rw [Routes.add, h.find_or_parse, Registration.entry, Option.map_bind]
  congr 1
  funext m
  rw [Function.comp_apply, Option.map_map]
  rfl

/-- One more call. -/
theorem registered_concat {es : List (Entry H)} {regs : List (Registration H)}
    (h : Built U es (Routes.registered U regs).paths) (r : Registration H) :
    Routes.registered U (regs ++ [r]) =
      ((r.entry U).map fun e =>
        ⟨Routing.insertEntry (Routes.registered U regs).paths e⟩).getD
            (Routes.registered U regs) := by
  rw [← h.add_eq r, Routes.registered, List.foldl_append]
  rfl

theorem registered (regs : List (Registration H)) :
    Built U (entries U regs) (Routes.registered U regs).paths := by
  induction regs using List.reverseRecOn with
  | nil => exact nil
  | append_singleton regs r ih =>
    rw [ih.registered_concat r, entries_concat]
    cases hentry : r.entry U with
    | none => simpa using ih
    | some e => exact ih.insertEntry (parse_of_entry hentry)

end Built

end LocalPost.Http.Routing
