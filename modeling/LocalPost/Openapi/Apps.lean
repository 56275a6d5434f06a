import LocalPost.Http.Routing.Dispatch

/-!
# The two OpenAPI apps

How `HttpApp` and `HttpAsyncApp` turn their operations and the built-in documentation routes into a
dispatcher: `HttpApp` through `Routes` and `Router`, `HttpAsyncApp` with a table and a loop of its
own. Both lists of operations are in the order of registration.
-/

set_option autoImplicit false

namespace LocalPost.Openapi

open LocalPost.Core LocalPost.Http.Routing

universe u

variable {H : Type u} {U : Unicode}

/-- `Operation` and `AsyncOperation`, as far as dispatch reads them; `create` has parsed the
template. -/
structure Operation (U : Unicode) (H : Type u) where
  method : HTTPMethod
  path : Str
  template : URITemplate
  handler : H
  parsed : URITemplate.parse U path = some template

/-- `DocsUI`. -/
inductive DocsUI where
  | swagger
  | redoc
  | scalar
  | all
  deriving DecidableEq, Repr

/-- What the constructors take about the documentation; an empty path counts as none. -/
structure Docs where
  openapi_path : Option Str
  docs_path : Option Str
  docs_ui : DocsUI
  deriving DecidableEq, Repr

/-- The defaults of the constructors. -/
def Docs.default : Docs := ⟨some "/openapi.json".toList, some "/docs".toList, .all⟩

/-- What a route runs: an operation or one of the built-in handlers. -/
inductive Target (H : Type u) where
  | operation (handler : H)
  | openapi
  | swagger
  | redoc
  | scalar
  deriving DecidableEq, Repr

/-- The built-in routes, all for `GET`, in the order in which both apps add them. -/
def builtIns (docs : Docs) : List (Str × Target H) :=
  match docs.openapi_path.filter (· ≠ []) with
  | none => []
  | some openapiPath =>
    (openapiPath, .openapi) ::
      match docs.docs_path.filter (· ≠ []) with
      | none => []
      | some docsPath =>
        (if docs.docs_ui = .swagger ∨ docs.docs_ui = .all then [(docsPath, .swagger)] else []) ++
        (if docs.docs_ui = .redoc ∨ docs.docs_ui = .all then
          [(docsPath ++ "/redoc".toList, .redoc)] else []) ++
        (if docs.docs_ui = .scalar ∨ docs.docs_ui = .all then
          [(docsPath ++ "/scalar".toList, .scalar)] else [])

/-- The routes of an app as registrations. -/
def registrations (ops : List (Operation U H)) (docs : Docs) : List (Registration (Target H)) :=
  ops.map (fun op => ⟨.member op.method, op.path, .operation op.handler⟩) ++
    (builtIns docs).map fun route => ⟨.member .get, route.1, route.2⟩

/-! ## HttpApp -/

/-- `HttpApp._build_router_handler` up to the router: the operations and `_mount_built_in`, added
one after the other. -/
def buildRouterHandler (ops : List (Operation U H)) (docs : Docs) : Option (Router (Target H)) :=
  ((registrations ops docs).foldlM (fun (rs : Routes (Target H)) r =>
    rs.add U r.method r.template r.handler) ⟨[]⟩).bind
    (Router.fromRoutes U)

/-! ## HttpAsyncApp -/

/-- `_RouteEntry`. -/
structure RouteEntry (H : Type u) where
  template : URITemplate
  methods : MethodMap H
  deriving DecidableEq, Repr

/-- `bucket`. -/
abbrev Bucket (H : Type u) := Dict Str (RouteEntry H)

/-- The `add` of `_build_async_handler`; `none` is the `ValueError` for a duplicate. -/
def addRoute (bucket : Bucket H) (m : HTTPMethod) (t : URITemplate) (handler : H) :
    Option (Bucket H) :=
  let entry := (Dict.get? t.template bucket).getD ⟨t, []⟩
  if (Dict.get? m entry.methods).isSome then none
  else some (Dict.set t.template { entry with methods := Dict.set m handler entry.methods } bucket)

/-- `HttpAsyncApp._build_async_handler` up to the entries; a built-in path is parsed here. -/
def buildAsyncHandler (ops : List (Operation U H)) (docs : Docs) :
    Option (List (RouteEntry (Target H))) :=
  ((ops.foldlM (fun b op => addRoute b op.method op.template (.operation op.handler)) []).bind
    fun bucket => (builtIns docs).foldlM (fun b route => (URITemplate.parse U route.1).bind fun t =>
      addRoute b .get t route.2) bucket).map fun bucket => bucket.map (·.2)

/-- `", ".join(sorted(m.value for m in allow))`. -/
def joinSorted (allow : List HTTPMethod) : Str :=
  (((allow.map HTTPMethod.value).insertionSort (· ≤ ·)).intersperse ", ".toList).flatten

/-- `_match`. -/
def matchEntries (path : Str) (method : Option HTTPMethod) :
    List (RouteEntry H) → Bool → List HTTPMethod → Verdict H
  | [], anyTemplateMatched, allow =>
    if anyTemplateMatched then .methodNotAllowed (joinSorted allow) else .notFound
  | entry :: entries, anyTemplateMatched, allow =>
    match entry.template.match? path with
    | none => matchEntries path method entries anyTemplateMatched allow
    | some args =>
      match method.bind fun m => (Dict.get? m entry.methods).map fun handler => (m, handler) with
      | none => matchEntries path method entries true
        (Router.update allow (Dict.keys entry.methods))
      | some (m, handler) => .handled handler ⟨m, entry.template, args⟩

/-- `_canned_response`. -/
def cannedResponse (status : Nat) (body : Str) (extraHeaders : List (Str × Str)) : Response where
  statusCode := status
  headers := [("content-type".toList, "text/plain; charset=utf-8".toList),
    ("content-length".toList, Nat.toDigits 10 body.length)] ++ extraHeaders
  reason := []

/-- What the `dispatch` of `_build_async_handler` does with the result of `_match`. -/
def asyncOutcome : Verdict H → Outcome H
  | .notFound => .answered (cannedResponse 404 "Not Found".toList []) "Not Found".toList
  | .methodNotAllowed allow =>
    .answered (cannedResponse 405 "Method Not Allowed".toList [("allow".toList, allow)])
      "Method Not Allowed".toList
  | .handled handler found => .handled handler found

/-- The `dispatch` of `_build_async_handler`. -/
def asyncDispatch (entries : List (RouteEntry H)) (path methodStr : Str) : Outcome H :=
  asyncOutcome (matchEntries path (HTTPMethod.ofValue methodStr) entries false [])

end LocalPost.Openapi
