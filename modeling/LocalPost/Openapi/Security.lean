import LocalPost.Openapi.BasicAuth
import LocalPost.Openapi.WellFormed

/-!
# Documented and enforced security

Every auth middleware adds a requirement of its own to the `security` of an operation, and the
requirements of that list are alternatives. At run time the middlewares are nested: a request
reaches the operation when all of them let it through. So two schemes on one operation are
documented as either and enforced as both (`either_documented_both_enforced`).

`enforced_iff` says for which requests the two agree. The async siblings differ in an `await` at the
validator and at `call_next`.
-/

set_option autoImplicit false

namespace LocalPost.Openapi.Auth

open LocalPost.Core LocalPost.Http LocalPost.Http.Routing LocalPost.Openapi.Document
  LocalPost.Openapi.Signature

variable {P : Parts} {U : Unicode}

/-! ## The middlewares -/

/-- `HttpBearerAuth` and `AsyncHttpBearerAuth`. -/
structure HttpBearerAuth where
  validator : Str → Verdict
  scheme_name : Str
  bearer_format : Str
  description : Str

/-- `_bearer`: the token with which the validator is called, and the reply. -/
def HttpBearerAuth.bearer (auth : HttpBearerAuth) (authorization : Str) : Option Str × Reply :=
  if "Bearer ".toList.isPrefixOf authorization then
    let token := authorization.drop 7
    match auth.validator token with
    | .raises => (some token, .raises .validator)
    | .none => (some token, .unauthorized "Invalid token".toList [])
    | .principal => (some token, .next)
  else (none, .unauthorized "Missing or malformed Authorization header".toList [])

/-- An auth middleware. -/
inductive AuthMiddleware where
  | bearer (auth : HttpBearerAuth)
  | basic (auth : HttpBasicAuth) (description : Str)

namespace AuthMiddleware

def scheme_name : AuthMiddleware → Str
  | bearer auth => auth.scheme_name
  | basic auth _ => auth.scheme_name

/-- What its function ends with. -/
def reply (excess : Bool) (authorization : Str) : AuthMiddleware → Reply
  | bearer auth => (auth.bearer authorization).2
  | basic auth _ => (auth.basic excess authorization).2

/-- It takes the credentials of the request. -/
def accepts (excess : Bool) (authorization : Str) (mw : AuthMiddleware) : Prop :=
  mw.reply excess authorization = .next

instance (excess : Bool) (authorization : Str) (mw : AuthMiddleware) :
    Decidable (mw.accepts excess authorization) := inferInstanceAs (Decidable (_ = _))

end AuthMiddleware

/-- A middleware as a decorator or an app gets it; `build_responses` of its return annotation. -/
structure Installed (P : Parts) where
  id : Nat
  auth : AuthMiddleware
  buildResponses : P.Registry → Option (Dict Str P.Response × P.Registry)

/-- As the document has it. -/
def Installed.opMiddleware (mw : Installed P) : OpMiddleware P :=
  match mw.auth with
  | .bearer auth =>
    httpBearerAuth mw.id auth.scheme_name auth.bearer_format auth.description mw.buildResponses
  | .basic auth description => httpBasicAuth mw.id auth.scheme_name description mw.buildResponses

theorem security_opMiddleware (mw : Installed P) :
    mw.opMiddleware.security = [[(mw.auth.scheme_name, [])]] := by
  unfold Installed.opMiddleware
  cases mw.auth with
  | bearer auth => rfl
  | basic auth description => rfl

/-! ## The chain -/

/-- `_wrap_middleware`: the rest of the chain runs when the middleware calls `call_next`. -/
def wrapMiddleware (excess : Bool) (mw : AuthMiddleware) (callNext : Str → Reply)
    (authorization : Str) :
    Reply :=
  match mw.reply excess authorization with
  | .next => callNext authorization
  | other => other

/-- `_run`, the loop over `reversed(self.middlewares)`; `next` at the end is the operation. -/
def run (excess : Bool) (middlewares : List AuthMiddleware) : Str → Reply :=
  middlewares.reverse.foldl (fun chain mw => wrapMiddleware excess mw chain) fun _ => .next

theorem run_cons (excess : Bool) (mw : AuthMiddleware) (mws : List AuthMiddleware) :
    run excess (mw :: mws) = wrapMiddleware excess mw (run excess mws) := by
  unfold run
  rw [List.reverse_cons, List.foldl_append]
  rfl

/-- The operation is reached when every middleware accepts. -/
theorem run_eq_next_iff (excess : Bool) (mws : List AuthMiddleware) (authorization : Str) :
    run excess mws authorization = .next ↔ ∀ mw ∈ mws, mw.accepts excess authorization := by
  induction mws with
  | nil => exact iff_of_true rfl fun _ h => (by cases h)
  | cons mw mws ih =>
    rw [run_cons, List.forall_mem_cons, ← ih]
    unfold wrapMiddleware AuthMiddleware.accepts
    cases mw.reply excess authorization with
    | next => simp
    | unauthorized body headers => simp
    | raises e => simp

/-! ## The document -/

/-- A requirement is met when all its schemes are, and a list of them when one is; an empty list
asks for nothing. -/
def Satisfied (schemes : Str → Prop) (security : List Requirement) : Prop :=
  security = [] ∨ ∃ requirement ∈ security, ∀ name ∈ Dict.keys requirement, schemes name

/-- The schemes for which the request carries accepted credentials. -/
def Carried (excess : Bool) (mws : List AuthMiddleware) (authorization : Str) (name : Str) : Prop :=
  ∃ mw ∈ mws, mw.scheme_name = name ∧ mw.accepts excess authorization

/-- The condition: the middlewares agree on the request. -/
def AllOrNone (excess : Bool) (mws : List AuthMiddleware) (authorization : Str) : Prop :=
  (∀ mw ∈ mws, mw.accepts excess authorization) ∨ ∀ mw ∈ mws, ¬mw.accepts excess authorization

/-- One requirement for each middleware: one accepted scheme satisfies them. -/
theorem satisfied_iff (excess : Bool) (mws : List AuthMiddleware) (authorization : Str) :
    Satisfied (Carried excess mws authorization) (mws.map fun mw => [(mw.scheme_name, [])]) ↔
      mws = [] ∨ ∃ mw ∈ mws, mw.accepts excess authorization := by
  unfold Satisfied
  rw [List.map_eq_nil_iff]
  refine or_congr_right ?_
  constructor
  · rintro ⟨requirement, hmem, hall⟩
    obtain ⟨mw, -, rfl⟩ := List.mem_map.1 hmem
    obtain ⟨mw', hmw', -, haccepts⟩ := hall mw.scheme_name List.mem_cons_self
    exact ⟨mw', hmw', haccepts⟩
  · rintro ⟨mw, hmw, haccepts⟩
    refine ⟨_, List.mem_map_of_mem hmw, fun name hname => ⟨mw, hmw, ?_, haccepts⟩⟩
    exact (List.mem_singleton.1 hname).symm

/-- All of them and some of them are the same when they agree. -/
theorem all_iff_some_iff (excess : Bool) (mws : List AuthMiddleware) (authorization : Str) :
    ((∀ mw ∈ mws, mw.accepts excess authorization) ↔
      mws = [] ∨ ∃ mw ∈ mws, mw.accepts excess authorization) ↔
        AllOrNone excess mws authorization := by
  constructor
  · intro h
    by_cases hsome : ∃ mw ∈ mws, mw.accepts excess authorization
    · exact .inl (h.2 (.inr hsome))
    · exact .inr fun mw hmw haccepts => hsome ⟨mw, hmw, haccepts⟩
  · rintro (hall | hnone)
    · refine iff_of_true hall ?_
      cases mws with
      | nil => exact .inl rfl
      | cons mw mws => exact .inr ⟨mw, List.mem_cons_self, hall mw List.mem_cons_self⟩
    · constructor
      · intro hall
        cases mws with
        | nil => exact .inl rfl
        | cons mw mws => exact absurd (hall mw List.mem_cons_self) (hnone mw List.mem_cons_self)
      · rintro (rfl | ⟨mw, hmw, haccepts⟩)
        · exact fun _ h => (by cases h)
        · exact absurd haccepts (hnone mw hmw)

/-- The `security` of an operation behind auth middlewares, when its own parameters add none. -/
theorem security_of_buildSpec {app own : List (Installed P)} {r : Registration P}
    (hplain : ∀ found, r.resolve U = some found → found.2.flatMap Resolved.security = [])
    {op : Document.Operation (vocabulary P)}
    (hcreate : { r with middlewares := own.map Installed.opMiddleware }.create U
      (app.map Installed.opMiddleware) = some op)
    {registry registry' : P.Registry} {spec : SpecOp P}
    (hbuild : op.buildSpec registry = some (spec, registry')) :
    (fieldsOf spec).security = (app ++ own).map fun mw => [(mw.auth.scheme_name, [])] := by
  obtain ⟨found, hbuilt⟩ := built_of_buildSpec hcreate hbuild
  rw [hbuilt.security]
  unfold allSecurity
  rw [hplain found hbuilt.resolve, List.nil_append, ← List.map_append, List.flatMap_map]
  simp only [security_opMiddleware]
  exact List.map_eq_flatMap.symm

/-- For every operation behind any stack of auth middlewares of the app and its own, and every
request: the request reaches the operation exactly when it satisfies the documented `security`, if
and only if the middlewares all accept the request or none does. `hplain` is about resolvers of the
user's own. -/
theorem enforced_iff {app own : List (Installed P)} {r : Registration P}
    (hplain : ∀ found, r.resolve U = some found → found.2.flatMap Resolved.security = [])
    {op : Document.Operation (vocabulary P)}
    (hcreate : { r with middlewares := own.map Installed.opMiddleware }.create U
      (app.map Installed.opMiddleware) = some op)
    {registry registry' : P.Registry} {spec : SpecOp P}
    (hbuild : op.buildSpec registry = some (spec, registry')) (excess : Bool)
    (headers : List (Bytes × Bytes)) :
    (run excess ((app ++ own).map Installed.auth) (authorization headers) = .next ↔
      Satisfied (Carried excess ((app ++ own).map Installed.auth) (authorization headers))
        (fieldsOf spec).security) ↔
    AllOrNone excess ((app ++ own).map Installed.auth) (authorization headers) := by
  have hsecurity : (fieldsOf spec).security =
      ((app ++ own).map Installed.auth).map fun mw => [(mw.scheme_name, [])] := by
    rw [security_of_buildSpec hplain hcreate hbuild, List.map_map]
    rfl
  rw [run_eq_next_iff, hsecurity, satisfied_iff, all_iff_some_iff]

/-! ## Two schemes -/

/-- A bearer middleware that takes every token, or none. -/
def token (id : Nat) (name : Str) (verdict : Verdict) : Installed byName :=
  ⟨id, .bearer ⟨fun _ => verdict, name, "JWT".toList, []⟩, answers "401".toList⟩

/-- `/me`. -/
def me : Registration byName := ⟨.get, "/me".toList, handler "me".toList [], []⟩

/-- `Authorization: Bearer t`. -/
def withToken : List (Bytes × Bytes) := withAuthorization [66, 101, 97, 114, 101, 114, 32, 116]

theorem me_plain : ∀ found, me.resolve asciiOnly = some found →
    found.2.flatMap Resolved.security = [] := by
  intro found hfound
  have hall : ∀ found ∈ me.resolve asciiOnly, found.2.flatMap Resolved.security = [] := by decide
  exact hall found hfound

/-- `/me` behind middlewares of the app. -/
def meBehind (app : List (Installed byName)) : Option (Document.Operation (vocabulary byName)) :=
  { me with middlewares := [].map Installed.opMiddleware }.create asciiOnly
    (app.map Installed.opMiddleware)

/-- The operation and its entry exist. -/
theorem me_built (app : List (Installed byName))
    (h : ((meBehind app).bind fun op => op.buildSpec []).isSome = true) :
    ∃ op spec registry, meBehind app = some op ∧ op.buildSpec [] = some (spec, registry) := by
  obtain ⟨⟨spec, registry⟩, hspec⟩ := Option.isSome_iff_exists.1 h
  obtain ⟨op, hop, hbuild⟩ := Option.bind_eq_some_iff.1 hspec
  exact ⟨op, spec, registry, hop, hbuild⟩

/-- Both schemes take the token, so the chain and the document agree. -/
theorem enforced_iff_me : ∃ op spec registry,
    meBehind [token 0 "a".toList .principal, token 1 "b".toList .principal] = some op ∧
      op.buildSpec [] = some (spec, registry) ∧
      (run true [(token 0 "a".toList .principal).auth, (token 1 "b".toList .principal).auth]
          (authorization withToken) = .next ↔
        Satisfied
          (Carried true [(token 0 "a".toList .principal).auth, (token 1 "b".toList .principal).auth]
          (authorization withToken)) (fieldsOf spec).security) := by
  obtain ⟨op, spec, registry, hcreate, hbuild⟩ :=
    me_built [token 0 "a".toList .principal, token 1 "b".toList .principal] (by decide)
  refine ⟨op, spec, registry, hcreate, hbuild, ?_⟩
  have hall : AllOrNone true
    [(token 0 "a".toList .principal).auth, (token 1 "b".toList .principal).auth]
      (authorization withToken) := .inl (by decide)
  exact (enforced_iff me_plain hcreate hbuild true withToken).2 hall

/-- Two schemes, of which the request has one: the document takes it, the chain answers 401. -/
theorem either_documented_both_enforced : ∃ op spec registry,
    meBehind [token 0 "a".toList .principal, token 1 "b".toList .none] = some op ∧
      op.buildSpec [] = some (spec, registry) ∧
      run true [(token 0 "a".toList .principal).auth, (token 1 "b".toList .none).auth]
        (authorization withToken) = .unauthorized "Invalid token".toList [] ∧
      Satisfied
        (Carried true [(token 0 "a".toList .principal).auth, (token 1 "b".toList .none).auth]
        (authorization withToken)) (fieldsOf spec).security := by
  obtain ⟨op, spec, registry, hcreate, hbuild⟩ :=
    me_built [token 0 "a".toList .principal, token 1 "b".toList .none] (by decide)
  refine ⟨op, spec, registry, hcreate, hbuild, by decide, ?_⟩
  rw [security_of_buildSpec me_plain hcreate hbuild]
  refine .inr ⟨[("a".toList, [])], List.mem_cons_self, fun name hname => ?_⟩
  refine ⟨(token 0 "a".toList .principal).auth, List.mem_cons_self, ?_, by decide⟩
  exact (List.mem_singleton.1 hname).symm

end LocalPost.Openapi.Auth
