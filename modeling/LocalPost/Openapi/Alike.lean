import LocalPost.Openapi.Symmetry

/-!
# The two apps select the same operation

`Alike` compares the dispatchers of the two apps on one request, `Aligned` is the condition on the
routes and the request, and `dispatch_alike_iff` says that they are equivalent. The condition is met
by routes that do not overlap; `registered_in_an_unlucky_order` shows two that do.
-/

set_option autoImplicit false

namespace LocalPost.Openapi

open LocalPost.Core LocalPost.Http.Routing LocalPost.Http.Routing.Reference

universe u

variable {H : Type u} {U : Unicode}

/-- The value of the Allow header, whose name the two apps write differently. -/
def allowValue (r : Response) : Option Str :=
  (r.headers.find? fun h => h.1 = "Allow".toList ∨ h.1 = "allow".toList).map (·.2)

/-- The same operation with the same match, or answers with the same status and the same Allow
value. -/
def SameOutcome : Outcome H → Outcome H → Prop
  | .handled handler found, .handled handler' found' => handler = handler' ∧ found = found'
  | .answered response _, .answered response' _ =>
    response.statusCode = response'.statusCode ∧ allowValue response = allowValue response'
  | _, _ => False

/-- Both apps are built, and they do the same with the request. -/
def Alike (ops : List (Operation U H)) (docs : Docs) (path methodStr : Str) : Prop :=
  ∃ router entries outcome, buildRouterHandler ops docs = some router ∧
    buildAsyncHandler ops docs = some entries ∧ router.dispatch path methodStr = some outcome ∧
    SameOutcome outcome (asyncDispatch entries path methodStr)

/-- The template matches the path and has the method. -/
def Serves (es : List (Entry H)) (path : Str) (m : HTTPMethod) (t : URITemplate) : Prop :=
  Matches t path ∧ (handler? es m t).isSome = true

/-- The first registered of the templates that serve the request has the longest literal prefix of
them. -/
def FirstIsLongest (es : List (Entry H)) (path methodStr : Str) : Prop :=
  ∀ m, HTTPMethod.ofValue methodStr = some m → ∀ t, Serves es path m t →
    (∀ u, Serves es path m u → position es t ≤ position es u) →
    ∀ u, Serves es path m u → literalPrefixLen u ≤ literalPrefixLen t

/-- The condition: the built-in paths are templates, no method and template is registered twice, the
built-in routes included, and the order of registration agrees with the order of the prefixes where
it matters to the request. -/
structure Aligned (ops : List (Operation U H)) (docs : Docs) (path methodStr : Str) : Prop where
  parsed : ∀ r ∈ registrations ops docs, (r.entry U).isSome = true
  distinct : ((entries U (registrations ops docs)).map Entry.key).Nodup
  first : FirstIsLongest (entries U (registrations ops docs)) path methodStr

/-- Outcomes are the same exactly if the verdicts are. -/
theorem sameOutcome_iff (v w : Verdict H) : SameOutcome v.outcome (asyncOutcome w) ↔ v = w := by
  cases v with
  | handled handler found =>
    cases w with
    | handled handler' found' => simp [SameOutcome, Verdict.outcome, asyncOutcome]
    | methodNotAllowed allow => simp [SameOutcome, Verdict.outcome, asyncOutcome]
    | notFound => simp [SameOutcome, Verdict.outcome, asyncOutcome]
  | methodNotAllowed allow =>
    cases w with
    | handled handler' found' => simp [SameOutcome, Verdict.outcome, asyncOutcome]
    | methodNotAllowed allow' =>
      change 405 = 405 ∧ some allow = some allow' ↔ _
      simp
    | notFound =>
      change 405 = 404 ∧ some allow = none ↔ _
      simp
  | notFound =>
    cases w with
    | handled handler' found' => simp [SameOutcome, Verdict.outcome, asyncOutcome]
    | methodNotAllowed allow =>
      change 404 = 405 ∧ none = some allow ↔ _
      simp
    | notFound => exact iff_of_true ⟨rfl, rfl⟩ rfl

/-! ## Two orders, one reference -/

variable {es : List (Entry H)} {before before' : URITemplate → URITemplate → Prop}
  {path methodStr : Str}

/-- A template serves the request exactly when a handler runs. -/
theorem handled_of_serves {v : Verdict H} (hv : Decides es before path methodStr v) {m : HTTPMethod}
    (hm : HTTPMethod.ofValue methodStr = some m) {t : URITemplate} (ht : Serves es path m t) :
    ∃ handler found, v = .handled handler found := by
  cases v with
  | handled handler found => exact ⟨handler, found, rfl⟩
  | methodNotAllowed allow =>
    have hnone := hv.1 m t hm ht.1
    rw [Serves, hnone] at ht
    cases ht.2
  | notFound => exact absurd ht.1 (hv t (registered_of_handler? ht.2))

theorem serves_of_handled {handler : H} {found : RouteMatch}
    (h : Decides es before path methodStr (.handled handler found)) :
    Serves es path found.method found.matched_template :=
  ⟨by rw [Matches, h.2.2.1]; rfl, by rw [h.2.2.2.1]; rfl⟩

/-- The template that is selected decides everything else. -/
theorem handled_congr {handler handler' : H} {found found' : RouteMatch}
    (h : Decides es before path methodStr (.handled handler found))
    (h' : Decides es before' path methodStr (.handled handler' found'))
    (ht : found.matched_template = found'.matched_template) :
    (Verdict.handled handler found) = .handled handler' found' := by
  obtain ⟨m, t, args⟩ := found
  obtain ⟨m', t', args'⟩ := found'
  obtain ⟨hm, -, hargs, hhandler, -⟩ := h
  obtain ⟨hm', -, hargs', hhandler', -⟩ := h'
  change t = t' at ht
  subst ht
  have hmm : m = m' := Option.some.inj (hm.symm.trans hm')
  subst hmm
  have haa : args = args' := Option.some.inj (hargs.symm.trans hargs')
  subst haa
  have hhh : handler = handler' := Option.some.inj (hhandler.symm.trans hhandler')
  rw [hhh]

/-- Without a handler both orders come to the same answer. -/
theorem answered_congr {v w : Verdict H} (hv : Decides es before path methodStr v)
    (hw : Decides es before' path methodStr w)
    (hnone : ∀ m, HTTPMethod.ofValue methodStr = some m → ∀ t, ¬Serves es path m t) : v = w := by
  cases v with
  | handled handler found => exact absurd (serves_of_handled hv) (hnone _ hv.1 _)
  | methodNotAllowed allow =>
    cases w with
    | handled handler found => exact absurd (serves_of_handled hw) (hnone _ hw.1 _)
    | methodNotAllowed allow' => rw [hv.2.2.unique hw.2.2]
    | notFound =>
      obtain ⟨t, ht, hmatches⟩ := hv.2.1
      exact absurd hmatches (hw t ht)
  | notFound =>
    cases w with
    | handled handler found => exact absurd (serves_of_handled hw) (hnone _ hw.1 _)
    | methodNotAllowed allow' =>
      obtain ⟨t, ht, hmatches⟩ := hw.2.1
      exact absurd hmatches (hv t ht)
    | notFound => rfl

/-- The two orders select the same template exactly when the first registered one is the longest. -/
theorem verdicts_eq_iff {v w : Verdict H} (hv : Decides es (Precedes es) path methodStr v)
    (hw : Decides es (fun t u => position es t < position es u) path methodStr w) :
    v = w ↔ FirstIsLongest es path methodStr := by
  constructor
  -- One verdict for both: the chosen template is the first one and the longest one.
  · rintro rfl m hm t ht hfirst u hu
    obtain ⟨handler, found, rfl⟩ := handled_of_serves hv hm ht
    have hmethod : found.method = m := Option.some.inj (hv.1.symm.trans hm)
    subst hmethod
    have htemplate : t = found.matched_template := by
      rcases hw.2.2.2.2 t ht.1 ht.2 with heq | hlt
      · exact heq
      · exact absurd (hfirst _ (serves_of_handled hv)) (Nat.not_le_of_lt hlt)
    subst htemplate
    rcases hv.2.2.2.2 u hu.1 hu.2 with rfl | hprecedes
    · exact Nat.le_refl _
    · exact hprecedes.key_le
  · intro hlongest
    by_cases hserves : ∃ m t, HTTPMethod.ofValue methodStr = some m ∧ Serves es path m t
    · obtain ⟨m, t, hm, ht⟩ := hserves
      obtain ⟨handler, found, rfl⟩ := handled_of_serves hv hm ht
      obtain ⟨handler', found', rfl⟩ := handled_of_serves hw hm ht
      apply handled_congr hv hw
      have hmm : found.method = found'.method := Option.some.inj (hv.1.symm.trans hw.1)
      have hsv := serves_of_handled hv
      have hsw := serves_of_handled hw
      rw [hmm] at hsv
      rcases hw.2.2.2.2 _ hsv.1 hsv.2 with heq | hlt
      · exact heq
      · -- The router has chosen a later template, so one with a longer prefix.
        have hfirst : ∀ u, Serves es path found'.method u →
            position es found'.matched_template ≤ position es u := by
          intro u hu
          rcases hw.2.2.2.2 u hu.1 hu.2 with rfl | hlt
          · exact Nat.le_refl _
          · exact Nat.le_of_lt hlt
        have hle := hlongest _ hw.1 _ hsw hfirst _ hsv
        rw [← hmm] at hsw
        rcases hv.2.2.2.2 _ hsw.1 hsw.2 with heq | hlonger | ⟨-, hearlier⟩
        · exact heq.symm
        · omega
        · omega
    · refine answered_congr hv hw fun m hm t ht => hserves ⟨m, t, hm, ht⟩

/-- For templates without `>` in their names the two apps do the same with a request exactly when
the condition holds. -/
theorem dispatch_alike_iff {ops : List (Operation U H)} {docs : Docs}
    (hplain : ∀ r ∈ registrations ops docs, PlainNames (pieces none r.template))
    (path methodStr : Str) : Alike ops docs path methodStr ↔ Aligned ops docs path methodStr := by
  have hsync : buildRouterHandler ops docs =
      (addAll U (registrations ops docs)).bind (Router.fromRoutes U) := rfl
  have hbuilt := Built.registered (U := U) (registrations ops docs)
  obtain ⟨router, hrouter, -, hdispatch⟩ := router_refines_reference (U := U) hplain
  obtain ⟨verdict, hverdict, hdecides⟩ := hdispatch path methodStr
  have hasync := async_decides hbuilt path methodStr
  have hentries : ∀ paths : Dict URITemplate (MethodMap (Target H)),
      (bucketOf paths).map (·.2) = paths.map entryOf := by
    intro paths
    rw [bucketOf, List.map_map]
    rfl
  constructor
  -- both answers are at hand, so their verdicts can be compared
  · rintro ⟨router', entries', outcome, hr, ha, ho, hsame⟩
    rw [buildAsyncHandler_eq, addAllRoutes_eq] at ha
    obtain ⟨bucket, hbucket, rfl⟩ := Option.map_eq_some_iff.1 ha
    obtain ⟨⟨hparsed, hnodup⟩, hbucket⟩ := Option.ite_none_right_eq_some.1 hbucket
    cases hbucket
    rw [hsync, addAll_eq, if_pos hparsed, Option.bind_some, hrouter] at hr
    cases hr
    rw [hverdict] at ho
    cases ho
    refine ⟨hparsed, hnodup, (verdicts_eq_iff hdecides hasync).1 ?_⟩
    rw [asyncDispatch, hentries] at hsame
    exact (sameOutcome_iff _ _).1 hsame
  -- the other way round both routers are built, and give their verdicts
  · rintro ⟨hparsed, hnodup, hfirst⟩
    refine ⟨router, (Routes.registered U (registrations ops docs)).paths.map entryOf,
      verdict.outcome, ?_, ?_, hverdict, ?_⟩
    · rw [hsync, addAll_eq, if_pos hparsed, Option.bind_some, hrouter]
    · rw [buildAsyncHandler_eq, addAllRoutes_eq, if_pos ⟨hparsed, hnodup⟩,
        Option.map_some, hentries]
    · rw [asyncDispatch]
      exact (sameOutcome_iff _ _).2 ((verdicts_eq_iff hdecides hasync).2 hfirst)

/-- The operation for a path that parses. -/
def Operation.ofPath (method : HTTPMethod) (path : Str) (handler : H)
    (h : (URITemplate.parse U path).isSome = true) : Operation U H :=
  ⟨method, path, (URITemplate.parse U path).get h, handler, (Option.some_get h).symm⟩

/-- Two operations that overlap, the variable one first. -/
def variableFirst : List (Operation asciiOnly Nat) :=
  [.ofPath .get "/\x7bname\x7d".toList 1 (by decide), .ofPath .get "/items".toList 2 (by decide)]

theorem dispatch_alike_iff_variableFirst :
    Alike variableFirst Docs.default "/items".toList "GET".toList ↔
      Aligned variableFirst Docs.default "/items".toList "GET".toList :=
  dispatch_alike_iff (by decide) _ _

/-- `HttpApp` selects the literal path, `HttpAsyncApp` the variable one. -/
theorem registered_in_an_unlucky_order :
    (variableFirst.map fun op => (op.method, op.path)).Nodup ∧
      (∃ router found, buildRouterHandler variableFirst Docs.default = some router ∧
        router.dispatch "/items".toList "GET".toList = some (.handled (.operation 2) found)) ∧
      (∃ entries found, buildAsyncHandler variableFirst Docs.default = some entries ∧
        asyncDispatch entries "/items".toList "GET".toList = .handled (.operation 1) found) ∧
      ¬Alike variableFirst Docs.default "/items".toList "GET".toList := by
  have hsync : ((buildRouterHandler variableFirst Docs.default).bind fun router =>
      router.dispatch "/items".toList "GET".toList) =
      some (.handled (.operation 2) ⟨.get, ((variableFirst.map (·.template))[1]), []⟩) := by
    decide +kernel
  have hasync : ((buildAsyncHandler variableFirst Docs.default).map fun entries =>
      asyncDispatch entries "/items".toList "GET".toList) =
      some (.handled (.operation 1) ⟨.get, ((variableFirst.map (·.template))[0]),
        [("name".toList, "items".toList)]⟩) := by
    decide
  obtain ⟨router, hrouter, hdispatch⟩ := Option.bind_eq_some_iff.1 hsync
  obtain ⟨entries, hentries, houtcome⟩ := Option.map_eq_some_iff.1 hasync
  refine ⟨by decide, ⟨router, _, hrouter, hdispatch⟩, ⟨entries, _, hentries, houtcome⟩, ?_⟩
  rintro ⟨router', entries', outcome, hr, he, ho, hsame⟩
  cases hrouter.symm.trans hr
  cases hentries.symm.trans he
  cases hdispatch.symm.trans ho
  rw [houtcome] at hsame
  cases hsame.1

end LocalPost.Openapi
