import LocalPost.Http.Routing.Combined
import LocalPost.Http.Routing.Walk

/-!
# The router answers as the reference does

The loop of `_match` is a walk over the sorted table, with the combined pattern in front of it.
`dispatch` gives an answer to every request and the answer is the reference's
(`router_refines_reference`), for templates whose names hold no `>`. A name with one is not only a
name: what follows the `>` is read as a pattern, and the combined pattern is then no longer the
alternation of the templates' own (`smuggled_pattern`).
-/

set_option autoImplicit false

namespace LocalPost.Http.Routing

open LocalPost.Core Reference

universe u

variable {H : Type u} {U : Unicode}

/-! ## The loop -/

namespace Router

variable {path : Str} {method : Option HTTPMethod} {item : Item H}

theorem matchLoop_miss (h : item.1.match? path = none) (routes : List (Route H))
    (allowed : List HTTPMethod) (matched : Nat) (single : Option (Response × Str)) :
    matchLoop path method (compileRoute item :: routes) allowed matched single =
      matchLoop path method routes allowed matched single := by
  rw [matchLoop, show (compileRoute item).template.match? path = none from h]

/-- A route without the method is passed over. -/
theorem matchLoop_skip {args : List (Str × Str)} (h : item.1.match? path = some args)
    (hmethod : ∀ m, method = some m → Dict.get? m item.2 = none) (routes : List (Route H))
    (allowed : List HTTPMethod) (matched : Nat) (single : Option (Response × Str)) :
    matchLoop path method (compileRoute item :: routes) allowed matched single =
      matchLoop path method routes (update allowed (Dict.keys item.2)) (matched + 1)
        (some (compileRoute item).method_not_allowed) := by
  rw [matchLoop, show (compileRoute item).template.match? path = some args from h]
  cases method with
  | none => rfl
  | some m =>
    rw [Option.bind_some, show Dict.get? m (compileRoute item).methods = none from hmethod m rfl]
    rfl

/-- The loop comes to the item at which the walk stops. -/
theorem matchLoop_stopsAt {pre : List (Item H)} {handler : H} {found : RouteMatch}
    (h : StopsAt path method pre item handler found) (post : List (Item H))
    (allowed : List HTTPMethod) (matched : Nat) (single : Option (Response × Str)) :
    matchLoop path method ((pre ++ item :: post).map compileRoute) allowed matched single =
      some (.ok handler found) := by
  induction pre generalizing allowed matched single with
  -- the route of the item itself answers
  | nil =>
    obtain ⟨m, t, args⟩ := found
    obtain ⟨rfl, htemplate, hargs, hhandler, -⟩ := h
    change t = item.1 at htemplate
    subst htemplate
    rw [List.nil_append, List.map_cons, matchLoop,
      show (compileRoute item).template.match? path = some args from hargs, Option.bind_some,
      show Dict.get? m (compileRoute item).methods = some handler from hhandler]
    rfl
  | cons i pre ih =>
    have hrest : StopsAt path method pre item handler found :=
      { h with passed := fun j hj => h.passed j (List.mem_cons_of_mem _ hj) }
    rw [List.cons_append, List.map_cons]
    cases hmatch : i.1.match? path with
    -- a route before it does not match, or has no handler for the method
    | none => rw [matchLoop_miss hmatch, ih hrest]
    | some args =>
      have hnone : ∀ m, method = some m → Dict.get? m i.2 = none := by
        intro m hm
        cases h.method_eq.symm.trans hm
        exact h.passed i List.mem_cons_self (by rw [hmatch]; rfl)
      rw [matchLoop_skip hmatch hnone, ih hrest]

/-- A loop that stops nowhere has collected the methods of the items that match. -/
theorem matchLoop_stopsNowhere {items : List (Item H)} (h : StopsNowhere path method items)
    (allowed : List HTTPMethod) (matched : Nat) (single : Option (Response × Str)) :
    matchLoop path method (items.map compileRoute) allowed matched single =
      matchLoop path method [] (updateAll allowed (hits path items))
        (matched + (hits path items).length)
        (((hits path items).getLast?.map fun item => (compileRoute item).method_not_allowed).or
          single) := by
  induction items generalizing allowed matched single with
  | nil => rfl
  | cons item items ih =>
    rw [List.map_cons]
    cases hmatch : item.1.match? path with
    | none =>
      have hitems : StopsNowhere path method items := by
        rw [StopsNowhere, ← hits_cons_of_none hmatch]
        exact h
      rw [matchLoop_miss hmatch, ih hitems, hits_cons_of_none hmatch]
    -- a route that matches adds its methods and stays the last one that was hit
    | some args =>
      rw [StopsNowhere, hits_cons_of_some hmatch] at h
      have hitems : StopsNowhere path method items :=
        fun m hm i hi => h m hm i (List.mem_cons_of_mem _ hi)
      rw [matchLoop_skip hmatch fun m hm => h m hm item List.mem_cons_self, ih hitems,
        hits_cons_of_some hmatch, List.length_cons, Nat.add_assoc, Nat.add_comm 1]
      congr 1
      -- when another one is hit behind it, that one is the last
      cases hlast : (hits path items).getLast? with
      | none => simp [List.getLast?_eq_none_iff.1 hlast]
      | some i =>
        rw [List.getLast?_cons, hlast]
        rfl

/-- What such a loop answers when an item matches and every item has a method. -/
theorem matchLoop_nil {matching : List (Item H)} (hne : matching ≠ [])
    (hmethods : ∀ item ∈ matching, Dict.keys item.2 ≠ [])
    (hnodup : ∀ item ∈ matching, (Dict.keys item.2).Nodup) :
    ∃ header, AllowOf (fun m => ∃ item ∈ matching, m ∈ Dict.keys item.2) header ∧
      matchLoop path method [] (updateAll [] matching) (0 + matching.length)
        ((matching.getLast?.map fun item => (compileRoute item).method_not_allowed).or none) =
        some (MatchResult.methodNotAllowed (H := H) (buildMethodNotAllowed header).1
          (buildMethodNotAllowed header).2) := by
  rw [Nat.zero_add, matchLoop]
  by_cases hone : matching.length = 1
  · obtain ⟨item, rfl⟩ := List.length_eq_one_iff.1 hone
    rw [List.forall_mem_singleton] at hnodup
    refine ⟨formatAllowHeader (Dict.keys item.2), ?_, ?_⟩
    · exact (allowOf_formatAllowHeader hnodup).congr fun m => by simp
    · rw [if_pos hone]
      rfl
  · rw [if_neg hone, if_pos]
    · refine ⟨formatAllowHeader (updateAll [] matching), ?_, rfl⟩
      refine (allowOf_formatAllowHeader (nodup_updateAll List.nodup_nil)).congr fun m => ?_
      rw [mem_updateAll]
      simp
    · obtain ⟨item, hitem⟩ := List.exists_mem_of_ne_nil _ hne
      obtain ⟨m, hm⟩ := List.exists_mem_of_ne_nil _ (hmethods item hitem)
      exact List.ne_nil_of_mem (mem_updateAll.2 (.inr ⟨item, hitem, hm⟩))

theorem perm_ordered (items : List (Item H)) : (ordered items).Perm items :=
  List.perm_insertionSort _ _

end Router

/-! ## Dispatch -/

/-- The template of a registration without `>` in its names is one of the router's. -/
theorem wellformed_of_registered {regs : List (Registration H)}
    (hplain : ∀ r ∈ regs, PlainNames (pieces none r.template)) {t : URITemplate}
    (ht : Registered (entries U regs) t) : Wellformed U t := by
  obtain ⟨e, he, rfl⟩ := ht
  obtain ⟨r, hr, hentry⟩ := List.mem_filterMap.1 he
  obtain ⟨m, -, hmap⟩ := Option.bind_eq_some_iff.1 hentry
  obtain ⟨t, ht, rfl⟩ := Option.map_eq_some_iff.1 hmap
  have hp := hplain r hr
  have hnames := ((URITemplate.parse_eq_some_iff hp).1 ht).1
  rw [← URITemplate.template_of_parse ht] at hp hnames
  exact ⟨hp, hnames⟩

/-- Matching against a registered template is fitting its pieces. -/
theorem matches_iff_fits {regs : List (Registration H)}
    (hplain : ∀ r ∈ regs, PlainNames (pieces none r.template)) {t : URITemplate} {path : Str}
    (ht : Registered (entries U regs) t) :
    Matches t path ↔ Fits (pieces none t.template) path := by
  have hparse := (Built.registered (U := U) regs).parsed t
    (((Built.registered regs).mem_keys t).2 ht)
  exact isSome_match_iff (wellformed_of_registered hplain ht).1 hparse

/-- The items of the table in the order of dispatch. -/
theorem Built.pairwise_ordered {es : List (Entry H)} {paths : Dict URITemplate (MethodMap H)}
    (h : Built U es paths) :
    (Router.ordered paths).Pairwise fun a b => Precedes es a.1 b.1 := by
  have hsorted := List.pairwise_map.1 h.sorted
  exact pairwise_insertionSort_key hsorted

/-- The router is built: no two templates are equal and the combined pattern compiles. -/
theorem fromRoutes_registered {regs : List (Registration H)}
    (hplain : ∀ r ∈ regs, PlainNames (pieces none r.template)) :
    ∃ router, Router.fromRoutes U (Routes.registered U regs) = some router ∧
      router.routes = (Router.ordered (Routes.registered U regs).paths).map Router.compileRoute ∧
      ∀ path, (router.regex.match? path).isSome = true ↔
        ∃ t, Registered (entries U regs) t ∧ Matches t path := by
  have hbuilt := Built.registered (U := U) regs
  -- the order of the router is a permutation of the registered paths
  have hkeys : ∀ t, t ∈ Dict.keys (Router.ordered (Routes.registered U regs).paths) ↔
      Registered (entries U regs) t := by
    intro t
    rw [← hbuilt.mem_keys]
    exact ((List.perm_insertionSort _ _).map Prod.fst).mem_iff
  have hwell : ∀ t ∈ Dict.keys (Router.ordered (Routes.registered U regs).paths), Wellformed U t :=
    fun t ht => wellformed_of_registered hplain ((hkeys t).1 ht)
  obtain ⟨regex, hregex, haccepts⟩ := compileCombined_accepts hwell
  -- two templates with one source are one template
  have hnodup : ((Dict.keys (Routes.registered U regs).paths).map URITemplate.template).Nodup := by
    refine hbuilt.nodup.map_on fun t ht u hu htu => ?_
    have hparse := hbuilt.parsed t ht
    rw [htu, hbuilt.parsed u hu] at hparse
    exact (Option.some.inj hparse).symm
  refine ⟨⟨_, regex⟩, ?_, rfl, fun path => ?_⟩
  · rw [Router.fromRoutes, if_pos hnodup, hregex, Option.map_some]
  · rw [Regex.isSome_match_iff, haccepts]
    constructor
    · rintro ⟨t, ht, hfits⟩
      exact ⟨t, (hkeys t).1 ht, (matches_iff_fits hplain ((hkeys t).1 ht)).2 hfits⟩
    · rintro ⟨t, ht, hmatches⟩
      exact ⟨t, (hkeys t).2 ht, (matches_iff_fits hplain ht).1 hmatches⟩

/-- The loop over the sorted table comes to the reference's verdict, when a template matches. -/
theorem Built.decides {es : List (Entry H)} {paths : Dict URITemplate (MethodMap H)}
    (h : Built U es paths) {path methodStr : Str} (hsome : ∃ t, Registered es t ∧ Matches t path) :
    ∃ result verdict, Router.matchLoop path (HTTPMethod.ofValue methodStr)
        ((Router.ordered paths).map Router.compileRoute) [] 0 none = some result ∧
      outcomeOf result = verdict.outcome ∧ Decides es (Precedes es) path methodStr verdict := by
  have hperm := Router.perm_ordered paths
  rcases first_hit path (HTTPMethod.ofValue methodStr) (Router.ordered paths) with
    ⟨pre, item, post, handler, found, hitems, hstop⟩ | hnone
  · refine ⟨.ok handler found, .handled handler found, ?_, rfl,
      h.decides_hit hperm h.pairwise_ordered hitems hstop⟩
    rw [hitems]
    exact Router.matchLoop_stopsAt hstop post [] 0 none
  · have hne : hits path (Router.ordered paths) ≠ [] := by
      obtain ⟨t, ht, hmatches⟩ := hsome
      obtain ⟨ms, hms⟩ := h.exists_get ht
      exact List.ne_nil_of_mem ((h.mem_hits hperm).2 ⟨hms, hmatches⟩)
    obtain ⟨header, hallow, hresult⟩ :=
      Router.matchLoop_nil hne (h.keys_ne_nil hperm) (h.nodup_keys hperm)
    exact ⟨_, .methodNotAllowed header, (Router.matchLoop_stopsNowhere hnone [] 0 none).trans
      hresult, rfl, h.decides_miss hperm hne hnone hallow⟩

/-- For templates without `>` in their names the router is built, its combined pattern matches a
path exactly when a registered template does, and it answers every request as the reference does. -/
theorem router_refines_reference {regs : List (Registration H)}
    (hplain : ∀ r ∈ regs, PlainNames (pieces none r.template)) :
    ∃ router, Router.fromRoutes U (Routes.registered U regs) = some router ∧
      (∀ path, (router.regex.match? path).isSome = true ↔
        ∃ t, Registered (entries U regs) t ∧ Matches t path) ∧
      ∀ path methodStr, ∃ verdict : Verdict H,
        router.dispatch path methodStr = some verdict.outcome ∧
        Decides (entries U regs) (Precedes (entries U regs)) path methodStr verdict := by
  obtain ⟨router, hrouter, hroutes, hregex⟩ := fromRoutes_registered (U := U) hplain
  refine ⟨router, hrouter, hregex, fun path methodStr => ?_⟩
  rw [Router.dispatch, Router.match?]
  by_cases hmatch : (router.regex.match? path).isSome = true
  · obtain ⟨result, verdict, hresult, houtcome, hdecides⟩ :=
      Built.decides (Built.registered regs) ((hregex path).1 hmatch)
    refine ⟨verdict, ?_, hdecides⟩
    have hnotNone : ¬(router.regex.match? path).isNone = true := by
      rw [Option.isNone_iff_eq_none]
      exact Option.isSome_iff_ne_none.1 hmatch
    rw [if_neg hnotNone, hroutes, hresult, Option.map_some, houtcome]
  · refine ⟨.notFound, ?_, fun t ht hmatches => hmatch ((hregex path).2 ⟨t, ht, hmatches⟩)⟩
    rw [if_pos (by simpa using hmatch)]
    rfl

/-- ASCII, with nothing beyond it. -/
def asciiOnly : Unicode := ⟨fun s => s.map Char.toUpper, fun _ => false, fun _ => false⟩

/-- Two templates that overlap, one of them with two methods. -/
def overlapping : List (Registration Nat) :=
  [⟨.name "get".toList, "/a/\x7bx\x7d".toList, 1⟩, ⟨.member .get, "/a/b".toList, 2⟩,
    ⟨.member .put, "/a/\x7bx\x7d".toList, 3⟩]

theorem router_refines_reference_overlapping :
    ∃ router, Router.fromRoutes asciiOnly (Routes.registered asciiOnly overlapping) = some router ∧
      (∀ path, (router.regex.match? path).isSome = true ↔
        ∃ t, Registered (entries asciiOnly overlapping) t ∧ Matches t path) ∧
      ∀ path methodStr, ∃ verdict : Verdict Nat,
        router.dispatch path methodStr = some verdict.outcome ∧
        Decides (entries asciiOnly overlapping) (Precedes (entries asciiOnly overlapping)) path
          methodStr verdict :=
  router_refines_reference (by decide)

/-- A name that goes on with a pattern of its own. -/
def smuggling : List (Registration Nat) :=
  [⟨.member .get, "/\x7ba>x)|(?P<b>y\x7d".toList, 1⟩]

/-- Two such names that bring in the same group. -/
def smugglingTwice : List (Registration Nat) :=
  [⟨.member .get, "/p\x7ba>x)(?P<b>y\x7d".toList, 1⟩,
    ⟨.member .get, "/q\x7ba>x)(?P<b>y\x7d".toList, 2⟩]

/-- The template matches a path, but the router answers with a 404; two registrations that were
accepted do not make a router. -/
theorem smuggled_pattern :
    (∃ router t, Router.fromRoutes asciiOnly (Routes.registered asciiOnly smuggling) = some router ∧
      Registered (entries asciiOnly smuggling) t ∧ Matches t "/xz".toList ∧
      router.dispatch "/xz".toList "GET".toList =
        some (.answered notFoundResponse notFoundBody)) ∧
    (entries asciiOnly smugglingTwice).length = 2 ∧
      Router.fromRoutes asciiOnly (Routes.registered asciiOnly smugglingTwice) = none := by
  have hanswer : ((Router.fromRoutes asciiOnly (Routes.registered asciiOnly smuggling)).bind
      fun router => router.dispatch "/xz".toList "GET".toList) =
      some (.answered notFoundResponse notFoundBody) := by decide
  have hmatches : ∀ e ∈ entries asciiOnly smuggling,
      (e.2.1.match? "/xz".toList).isSome = true := by decide
  have hne : entries asciiOnly smuggling ≠ [] := by decide
  obtain ⟨router, hrouter, hdispatch⟩ := Option.bind_eq_some_iff.1 hanswer
  obtain ⟨e, he⟩ := List.exists_mem_of_ne_nil _ hne
  exact ⟨⟨router, e.2.1, hrouter, ⟨e, he, rfl⟩, hmatches e he, hdispatch⟩, by decide, by decide⟩

end LocalPost.Http.Routing
