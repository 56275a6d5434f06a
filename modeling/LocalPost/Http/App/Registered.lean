import LocalPost.Http.Routing.Dispatch
import LocalPost.Http.Routing.Exact

/-!
# The functions of an application

`HttpApp` looks at the parameters of a function when it is registered, and finds an argument for
each of them when a request comes in. What is registered finds its arguments at every request
(`arguments_found`): the values that the path has for the variables of its template, and the
context. The call itself fails exactly for a function that takes a parameter by its position only,
which registration lets pass.
-/

set_option autoImplicit false

namespace LocalPost.Http.App

open LocalPost.Core LocalPost.Http.Routing LocalPost.Http.Routing.Reference

universe u

/-- `inspect.Parameter.kind`. -/
inductive Kind where
  | positionalOnly
  | positionalOrKeyword
  | varPositional
  | keywordOnly
  | varKeyword
  deriving DecidableEq, Repr

/-- A parameter; `isCtx` says that its type hint is `HTTPReqCtx`. -/
structure Param where
  name : Str
  kind : Kind
  hasDefault : Bool
  isCtx : Bool
  deriving DecidableEq, Repr

/-- `inspect.Signature`: the parameters have distinct names. -/
structure Signature where
  parameters : List Param
  distinct : (parameters.map Param.name).Nodup

/-- `_ParamResolver`. -/
inductive Resolver where
  | pathArg (name : Str)
  | ctx
  deriving DecidableEq, Repr

/-- An argument: the value of a variable, or the context. -/
inductive Arg where
  | text (s : Str)
  | ctx
  deriving DecidableEq, Repr

/-- What `_build_resolvers` raises. -/
inductive RegistrationError where
  | template
  | starred
  | unresolved (name : Str)
  deriving DecidableEq, Repr

/-- The resolver of one parameter. -/
def resolverOf (templateVars : List Str) (p : Param) : Except RegistrationError Resolver :=
  if p.kind = .varPositional ∨ p.kind = .varKeyword then .error .starred
  else if templateVars.contains p.name then .ok (.pathArg p.name)
  else if p.isCtx then .ok .ctx
  else .error (.unresolved p.name)

/-- The resolvers of the parameters, one after the other. -/
def resolversOf (templateVars : List Str) :
    List Param → Except RegistrationError (List (Str × Resolver))
  | [] => .ok []
  | p :: ps =>
    match resolverOf templateVars p with
    | .error e => .error e
    | .ok r =>
      match resolversOf templateVars ps with
      | .error e => .error e
      | .ok rs => .ok ((p.name, r) :: rs)

/-- `_build_resolvers`. -/
def buildResolvers (U : Unicode) (sig : Signature) (path : Str) :
    Except RegistrationError (List (Str × Resolver)) :=
  match URITemplate.parse U path with
  | none => .error .template
  | some t => resolversOf t.variable_names sig.parameters

/-- `_Route`, without its middleware: the function is known by its signature and by what it does
with its arguments. -/
structure Route (ρ : Type u) where
  method : HTTPMethod
  path : Str
  signature : Signature
  fn : List (Str × Option Arg) → ρ

/-- `HttpApp`: the routes that `deco` has appended, each of which it has looked at before. -/
structure HttpApp (U : Unicode) (ρ : Type u) where
  routes : List (Route ρ)
  checked : ∀ r ∈ routes, ∃ rs, buildResolvers U r.signature r.path = .ok rs

variable {U : Unicode} {ρ : Type u}

/-- `deco`: the route is appended, unless its parameters cannot be resolved. -/
def HttpApp.deco (app : HttpApp U ρ) (r : Route ρ) : Except RegistrationError (HttpApp U ρ) :=
  match h : buildResolvers U r.signature r.path with
  | .error e => .error e
  | .ok rs =>
    .ok ⟨app.routes ++ [r], fun r' hr' => (List.mem_append.1 hr').elim (app.checked r') fun hr' =>
      ⟨rs, List.mem_singleton.1 hr' ▸ h⟩⟩

/-- The calls of `Routes.add` in `_build_router_handler`. -/
def HttpApp.registrations (app : HttpApp U ρ) : List (Registration (Route ρ)) :=
  app.routes.map fun r => ⟨.member r.method, r.path, r⟩

/-- What a resolver finds for a request; `none` is a `KeyError`. -/
def Resolver.resolve (found : RouteMatch) : Resolver → Option Arg
  | .pathArg name => (Dict.get? name found.path_args).map .text
  | .ctx => some .ctx

/-- `{n: r(ctx) for n, r in resolvers.items()}`. -/
def kwargsOf (found : RouteMatch) : List (Str × Resolver) → Option (List (Str × Arg))
  | [] => some []
  | (n, r) :: rs => (r.resolve found).bind fun a => (kwargsOf found rs).map ((n, a) :: ·)

/-- The value of one parameter in a call with keywords only: `none` is the `TypeError` for a value
that is missing or given by name to a parameter that has none, `some none` the default. -/
def Param.bind (kwargs : List (Str × Arg)) (p : Param) : Option (Option Arg) :=
  match p.kind, Dict.get? p.name kwargs with
  | .positionalOnly, some _ => none
  | .varPositional, _ => some none
  | .varKeyword, _ => some none
  | _, some a => some (some a)
  | _, none => if p.hasDefault then some none else none

/-- The values of the parameters, one after the other. -/
def bindAll (kwargs : List (Str × Arg)) : List Param → Option (List (Str × Option Arg))
  | [] => some []
  | p :: ps => (p.bind kwargs).bind fun a => (bindAll kwargs ps).map ((p.name, a) :: ·)

/-- `fn(**kwargs)` up to the body of the function; a keyword that is no parameter's name is an error
too. -/
def bindCall (sig : Signature) (kwargs : List (Str × Arg)) : Option (List (Str × Option Arg)) :=
  if kwargs.all fun e => (sig.parameters.map Param.name).contains e.1 then
    bindAll kwargs sig.parameters else none

/-- The call of `inner`: `none` is an error before the body of the function. -/
def Route.call (U : Unicode) (r : Route ρ) (found : RouteMatch) : Option ρ :=
  match buildResolvers U r.signature r.path with
  | .error _ => none
  | .ok rs => (kwargsOf found rs).bind fun kwargs => (bindCall r.signature kwargs).map r.fn

/-- What a parameter is given: the value of the variable with its name, or the context. -/
def argument (d : List (Str × Str)) (p : Param) : Arg :=
  match Dict.get? p.name d with
  | some v => .text v
  | none => .ctx

/-! ## Resolving -/

/-- A parameter that can be resolved is no `*args`, and it is a variable or the context. -/
theorem resolve_of_resolverOf {vars vs : List Str} {p : Param} {r : Resolver} {found : RouteMatch}
    (hvs : vs.length = vars.length) (hfound : found.path_args = vars.zip vs)
    (h : resolverOf vars p = .ok r) :
    r.resolve found = some (argument (vars.zip vs) p) ∧ (p.name ∈ vars ∨ p.isCtx = true) ∧
      p.kind ≠ .varPositional ∧ p.kind ≠ .varKeyword := by
  have hkeys : Dict.keys (vars.zip vs) = vars := List.map_fst_zip (Nat.le_of_eq hvs.symm)
  rw [resolverOf] at h
  split at h
  · cases h
  · rename_i hkind
    rw [not_or] at hkind
    -- a parameter is filled from the path before it is filled with the context
    split at h
    · rename_i hname
      rw [List.contains_iff_mem] at hname
      cases h
      obtain ⟨v, hv⟩ := Option.isSome_iff_exists.1 (Dict.isSome_get?_iff.2 (hkeys.symm ▸ hname))
      refine ⟨?_, Or.inl hname, hkind⟩
      rw [Resolver.resolve, hfound, argument, hv]
      rfl
    · rename_i hname
      rw [List.contains_iff_mem] at hname
      split at h
      · rename_i hctx
        cases h
        -- the context has no value in the path, so `argument` falls back to it
        have hnone : Dict.get? p.name (vars.zip vs) = none := by
          rw [← Option.not_isSome_iff_eq_none, Dict.isSome_get?_iff, hkeys]
          exact hname
        refine ⟨?_, Or.inr hctx, hkind⟩
        rw [Resolver.resolve, argument, hnone]
      · cases h

/-- Every parameter finds its argument. -/
theorem kwargsOf_resolversOf {vars vs : List Str} {ps : List Param} {rs : List (Str × Resolver)}
    {found : RouteMatch} (hvs : vs.length = vars.length) (hfound : found.path_args = vars.zip vs)
    (h : resolversOf vars ps = .ok rs) :
    kwargsOf found rs = some (ps.map fun p => (p.name, argument (vars.zip vs) p)) ∧
      ∀ p ∈ ps, (p.name ∈ vars ∨ p.isCtx = true) ∧ p.kind ≠ .varPositional ∧
        p.kind ≠ .varKeyword := by
  induction ps generalizing rs with
  | nil =>
    cases h
    exact ⟨rfl, fun p hp => absurd hp List.not_mem_nil⟩
  | cons p ps ih =>
    rw [resolversOf] at h
    -- the first parameter that has no resolver stops the building
    cases hr : resolverOf vars p with
    | error e =>
      rw [hr] at h
      cases h
    | ok r =>
      cases hrs : resolversOf vars ps with
      | error e =>
        rw [hr, hrs] at h
        cases h
      | ok rs' =>
        rw [hr, hrs] at h
        cases h
        obtain ⟨hresolve, hp⟩ := resolve_of_resolverOf hvs hfound hr
        obtain ⟨hrest, hps⟩ := ih hrs
        refine ⟨?_, List.forall_mem_cons.2 ⟨hp, hps⟩⟩
        rw [kwargsOf, hresolve, hrest]
        rfl

/-! ## Calling -/

/-- A parameter with a value under its name is bound to it, unless it has to come by its position.
-/
theorem bind_of_get? {kwargs : List (Str × Arg)} {p : Param} {a : Arg}
    (hkind : p.kind ≠ .varPositional ∧ p.kind ≠ .varKeyword)
    (h : Dict.get? p.name kwargs = some a) :
    p.bind kwargs = if p.kind = .positionalOnly then none else some (some a) := by
  rw [Param.bind, h]
  cases hp : p.kind with
  | positionalOnly => rfl
  | positionalOrKeyword => rfl
  | varPositional => exact absurd hp hkind.1
  | keywordOnly => rfl
  | varKeyword => exact absurd hp hkind.2

/-- A call with an argument for every parameter fails exactly if one of them has to come by its
position. -/
theorem bindAll_eq {kwargs : List (Str × Arg)} {ps : List Param} (value : Param → Arg)
    (h : ∀ p ∈ ps, (p.kind ≠ .varPositional ∧ p.kind ≠ .varKeyword) ∧ Dict.get? p.name kwargs =
      some (value p)) :
    bindAll kwargs ps = if ∀ p ∈ ps, p.kind ≠ .positionalOnly then
      some (ps.map fun p => (p.name, some (value p))) else none := by
  induction ps with
  | nil => rfl
  | cons p ps ih =>
    obtain ⟨⟨hkind, hget⟩, hps⟩ := List.forall_mem_cons.1 h
    rw [bindAll, bind_of_get? hkind hget, ih hps]
    by_cases hp : p.kind = .positionalOnly
    · have hnot : ¬∀ q ∈ p :: ps, q.kind ≠ .positionalOnly := fun hall =>
        hall p List.mem_cons_self hp
      rw [if_pos hp, if_neg hnot]
      rfl
    · rw [if_neg hp, Option.bind_some]
      by_cases hrest : ∀ q ∈ ps, q.kind ≠ .positionalOnly
      · have hall : ∀ q ∈ p :: ps, q.kind ≠ .positionalOnly := List.forall_mem_cons.2 ⟨hp, hrest⟩
        rw [if_pos hrest, if_pos hall]
        rfl
      · have hnot : ¬∀ q ∈ p :: ps, q.kind ≠ .positionalOnly :=
          fun hall => hrest fun q hq => hall q (List.mem_cons_of_mem _ hq)
        rw [if_neg hrest, if_neg hnot]
        rfl

/-- The call of a route that was checked, with the values of its variables. -/
theorem call_eq {r : Route ρ} {t : URITemplate} {vs : List Str} {found : RouteMatch}
    {rs : List (Str × Resolver)}
    (ht : URITemplate.parse U r.path = some t)
    (hchecked : buildResolvers U r.signature r.path = .ok rs)
    (hvs : vs.length = t.variable_names.length)
    (hfound : found.path_args = t.variable_names.zip vs) :
    (r.call U found = if ∀ p ∈ r.signature.parameters, p.kind ≠ .positionalOnly then
      some (r.fn
        (r.signature.parameters.map fun p => (p.name, some (argument (t.variable_names.zip vs) p))))
      else none) ∧
    ∀ p ∈ r.signature.parameters, p.name ∈ t.variable_names ∨ p.isCtx = true := by
  have hresolvers : resolversOf t.variable_names r.signature.parameters = .ok rs := by
    rw [buildResolvers, ht] at hchecked
    exact hchecked
  obtain ⟨hkwargs, hps⟩ := kwargsOf_resolversOf hvs hfound hresolvers
  refine ⟨?_, fun p hp => (hps p hp).1⟩
  -- the names of a signature are distinct, so each keyword is bound to its own parameter
  have hnodup : (Dict.keys (r.signature.parameters.map fun p =>
      (p.name, argument (t.variable_names.zip vs) p))).Nodup := by
    rw [Dict.keys, List.map_map]
    exact r.signature.distinct
  have hnames :
      (r.signature.parameters.map fun p => (p.name, argument (t.variable_names.zip vs) p)).all
        (fun e => (r.signature.parameters.map Param.name).contains e.1) = true := by
    rw [List.all_eq_true]
    intro e he
    obtain ⟨p, hp, rfl⟩ := List.mem_map.1 he
    exact List.contains_iff_mem.2 (List.mem_map_of_mem hp)
  have hbind := bindAll_eq (argument (t.variable_names.zip vs)) fun p hp =>
    ⟨(hps p hp).2, (Dict.get?_eq_some_iff hnodup).2 (List.mem_map_of_mem hp)⟩
  rw [Route.call, hchecked]
  dsimp only
  -- the call passes keywords only: one positional-only parameter, and it raises
  rw [hkwargs, Option.bind_some, bindCall, if_pos hnames, hbind]
  split <;> rfl

/-! ## Every request -/

/-- The route that a request comes to was registered under its own path and method. -/
theorem route_of_handler {app : HttpApp U ρ} {m : HTTPMethod} {t : URITemplate} {r : Route ρ}
    (h : handler? (entries U app.registrations) m t = some r) :
    r ∈ app.routes ∧ r.method = m ∧ URITemplate.parse U r.path = some t := by
  obtain ⟨e, he, rfl⟩ := Option.map_eq_some_iff.1 h
  have hprop := List.find?_some he
  obtain ⟨reg, hreg, hentry⟩ :=
    List.mem_filterMap.1 (List.mem_reverse.1 (List.mem_of_find?_eq_some he))
  obtain ⟨r, hr, rfl⟩ := List.mem_map.1 hreg
  obtain ⟨t', ht', rfl⟩ := Option.map_eq_some_iff.1 hentry
  obtain ⟨hm, ht⟩ := of_decide_eq_true hprop
  exact ⟨hr, hm, ht' ▸ congrArg some ht⟩

/-- Every request to an application either is answered by the router or comes to a route that was
registered for its method and whose template, filled with values, is the path. All parameters of the
function find their arguments: these values, and the context for those annotated with it. The call
reaches the body of the function exactly if no parameter has to come by its position. -/
theorem arguments_found (app : HttpApp U ρ)
    (hplain : ∀ r ∈ app.routes, PlainNames (pieces none r.path)) :
    ∃ router, Router.fromRoutes U (Routes.registered U app.registrations) = some router ∧
      ∀ path methodStr, ∃ outcome, router.dispatch path methodStr = some outcome ∧
        ∀ r found, outcome = .handled r found →
          r ∈ app.routes ∧ HTTPMethod.ofValue methodStr = some r.method ∧
          (∀ p ∈ r.signature.parameters, p.name ∈ variableNames (pieces none r.path) ∨
            p.isCtx = true) ∧
          ∃ vs rest, Values (pieces none r.path) vs ∧ path = fill (pieces none r.path) vs ++ rest ∧
            (rest = [] ∨ rest = ['\n']) ∧
            r.call U found = if ∀ p ∈ r.signature.parameters, p.kind ≠ .positionalOnly then
              some (r.fn (r.signature.parameters.map fun p =>
                (p.name, some (argument ((variableNames (pieces none r.path)).zip vs) p))))
              else none := by
  have hregistered : ∀ reg ∈ app.registrations, PlainNames (pieces none reg.template) := by
    intro reg hreg
    obtain ⟨r, hr, rfl⟩ := List.mem_map.1 hreg
    exact hplain r hr
  obtain ⟨router, hrouter, hroutes, hregex⟩ := fromRoutes_registered (U := U) hregistered
  refine ⟨router, hrouter, fun path methodStr => ?_⟩
  rw [Router.dispatch, Router.match?]
  -- a path that the combined pattern accepts is a path of one of the routes
  by_cases hmatch : (router.regex.match? path).isSome = true
  · have hbuilt : Built U (entries U app.registrations)
      (Routes.registered U app.registrations).paths :=
      Built.registered app.registrations
    obtain ⟨result, verdict, hresult, houtcome, hdecides⟩ := hbuilt.decides ((hregex path).1 hmatch)
    have hnotNone : ¬(router.regex.match? path).isNone = true := by
      rw [Option.isNone_iff_eq_none]
      exact Option.isSome_iff_ne_none.1 hmatch
    rw [if_neg hnotNone, hroutes, hresult, Option.map_some]
    refine ⟨outcomeOf result, rfl, ?_⟩
    intro r found hhandled
    cases verdict with
    | methodNotAllowed allow =>
      rw [houtcome] at hhandled
      cases hhandled
    | notFound =>
      rw [houtcome] at hhandled
      cases hhandled
    | handled r' found' =>
      -- the handler that was found belongs to a registered route, with its template
      rw [houtcome] at hhandled
      cases hhandled
      obtain ⟨hmethod, -, hargs, hhandler, -⟩ := hdecides
      obtain ⟨hr, hm, ht⟩ := route_of_handler hhandler
      obtain ⟨rs, hchecked⟩ := app.checked r hr
      obtain ⟨-, heq⟩ := (URITemplate.parse_eq_some_iff (hplain r hr)).1 ht
      have htemplate : found.matched_template = built r.path := heq
      rw [htemplate] at hargs ht
      obtain ⟨vs, rest, hvs, hpath, hrest, -, hzip⟩ := match_built_some hargs
      -- the values in the path are those of the template's variables, in order
      obtain ⟨hcall, hparams⟩ := call_eq ht hchecked hvs.1 hzip
      exact ⟨hr, hm ▸ hmethod, hparams, vs, rest, hvs, hpath, hrest, hcall⟩
  · rw [if_pos (by simpa using hmatch)]
    exact ⟨.answered notFoundResponse notFoundBody, rfl, fun r found heq => by cases heq⟩

/-- A function of the context and the name in the path. -/
def profile : Route (List (Str × Option Arg)) where
  method := .post
  path := "/\x7bname\x7d/profile".toList
  signature := ⟨[⟨"ctx".toList, .positionalOrKeyword, false, true⟩,
    ⟨"name".toList, .positionalOrKeyword, false, false⟩], by decide⟩
  fn := id

/-- The application with this route. -/
def profileApp : HttpApp asciiOnly (List (Str × Option Arg)) where
  routes := [profile]
  checked r hr := ⟨[("ctx".toList, .ctx), ("name".toList, .pathArg "name".toList)],
    List.mem_singleton.1 hr ▸ (by decide)⟩

theorem arguments_found_profile :
    ∃ router, Router.fromRoutes asciiOnly (Routes.registered asciiOnly profileApp.registrations) =
      some router ∧
      ∀ path methodStr r found, router.dispatch path methodStr = some (.handled r found) →
        (r.call asciiOnly found).isSome = true := by
  have hplain : ∀ r ∈ profileApp.routes, PlainNames (pieces none r.path) := by
    intro r hr
    rw [List.mem_singleton.1 hr]
    exact (by decide : ∀ name ∈ variableNames (pieces none profile.path), '>' ∉ name)
  obtain ⟨router, hrouter, hdispatch⟩ := arguments_found profileApp hplain
  refine ⟨router, hrouter, fun path methodStr r found h => ?_⟩
  obtain ⟨outcome, houtcome, hhandled⟩ := hdispatch path methodStr
  obtain ⟨hr, -, -, vs, rest, -, -, -, hcall⟩ :=
    hhandled r found (Option.some.inj (houtcome.symm.trans h))
  rw [List.mem_singleton.1 hr] at hcall ⊢
  rw [hcall, if_pos (by decide)]
  rfl

end LocalPost.Http.App
