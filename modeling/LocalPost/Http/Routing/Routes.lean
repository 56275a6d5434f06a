import LocalPost.Http.Routing.Template
import LocalPost.Core.Dict
import Mathlib.Data.Char
import Mathlib.Data.List.Sort
import Mathlib.Data.List.Lex

/-!
# Routes and the router

The builder `Routes`, the compilation of a `Router` from it (`from_routes`: the routes sorted by the
length of their literal prefix, one alternation of all patterns with renamed groups, the prepared
405s) and the dispatch of a request (`_match`, `dispatch`). Handlers are of any type.
-/

set_option autoImplicit false

namespace LocalPost.Http.Routing

open LocalPost.Core

universe u

/-- `http.HTTPMethod`. -/
inductive HTTPMethod where
  | connect
  | delete
  | get
  | head
  | options
  | patch
  | post
  | put
  | trace
  deriving DecidableEq, Repr

namespace HTTPMethod

/-- The values of the enumeration. -/
def value : HTTPMethod → Str
  | .connect => "CONNECT".toList
  | .delete => "DELETE".toList
  | .get => "GET".toList
  | .head => "HEAD".toList
  | .options => "OPTIONS".toList
  | .patch => "PATCH".toList
  | .post => "POST".toList
  | .put => "PUT".toList
  | .trace => "TRACE".toList

/-- The members in the order of their definition. -/
def all : List HTTPMethod := [.connect, .delete, .get, .head, .options, .patch, .post, .put, .trace]

/-- `HTTPMethod(value)`; `none` is the `ValueError`. -/
def ofValue (s : Str) : Option HTTPMethod := all.find? fun m => m.value = s

end HTTPMethod

/-- A response the router answers with itself. -/
structure Response where
  statusCode : Nat
  headers : List (Str × Str)
  reason : Str
  deriving DecidableEq, Repr

/-- `http.client.responses` at the codes the router uses. -/
def phrase : Nat → Str
  | 404 => "Not Found".toList
  | 405 => "Method Not Allowed".toList
  | _ => "Unknown".toList

/-- `_build_plain_response`. -/
def buildPlainResponse (statusCode : Nat) (body : Str) (extraHeaders : List (Str × Str)) :
    Response where
  statusCode := statusCode
  headers := [("content-type".toList, "text/plain".toList),
    ("content-length".toList, Nat.toDigits 10 body.length)] ++ extraHeaders
  reason := phrase statusCode

/-- `_NOT_FOUND_BODY`. -/
def notFoundBody : Str := "Not Found".toList

/-- `_NOT_FOUND_RESPONSE`. -/
def notFoundResponse : Response := buildPlainResponse 404 notFoundBody []

/-- `_METHOD_NOT_ALLOWED_BODY`. -/
def methodNotAllowedBody : Str := "Method Not Allowed".toList

/-- `_build_method_not_allowed`. -/
def buildMethodNotAllowed (allowHeader : Str) : Response × Str :=
  (buildPlainResponse 405 methodNotAllowedBody [("Allow".toList, allowHeader)],
    methodNotAllowedBody)

/-- `", ".join`. -/
def joinAllow (methods : List HTTPMethod) : Str :=
  (methods.map HTTPMethod.value).intersperse ", ".toList |>.flatten

/-- `_format_allow_header`. -/
def formatAllowHeader (methods : List HTTPMethod) : Str :=
  joinAllow (methods.insertionSort fun a b => a.value ≤ b.value)

/-- A method table. -/
abbrev MethodMap (H : Type u) := Dict HTTPMethod H

/-- `Routes`. -/
structure Routes (H : Type u) where
  paths : Dict URITemplate (MethodMap H)
  deriving DecidableEq, Repr

/-- `Route`; the prefix of its groups is its index. -/
structure Route (H : Type u) where
  template : URITemplate
  methods : MethodMap H
  allow_header : Str
  method_not_allowed : Response × Str
  deriving DecidableEq, Repr

/-- `RouteMatch`. -/
structure RouteMatch where
  method : HTTPMethod
  matched_template : URITemplate
  path_args : List (Str × Str)
  deriving DecidableEq, Repr

/-- `_MatchResult`. -/
inductive MatchResult (H : Type u) where
  | ok (handler : H) (found : RouteMatch)
  | notFound
  | methodNotAllowed (response : Response) (body : Str)
  deriving DecidableEq, Repr

/-- `Router`. -/
structure Router (H : Type u) where
  routes : List (Route H)
  regex : Re
  deriving DecidableEq, Repr

variable {H : Type u}

/-- The `method` of a registration: a member or a string. -/
inductive MethodArg where
  | member (m : HTTPMethod)
  | name (s : Str)
  deriving DecidableEq, Repr

/-- `method if isinstance(method, HTTPMethod) else HTTPMethod(method.upper())`. -/
def MethodArg.toMethod (U : Unicode) : MethodArg → Option HTTPMethod
  | .member m => some m
  | .name s => HTTPMethod.ofValue (U.upper s)

namespace Routes

/-- `_find_template`. -/
def findTemplate (paths : Dict URITemplate (MethodMap H)) (template : Str) : Option URITemplate :=
  (Dict.keys paths).find? fun t => t.template = template

/-- `Routes.add`; `none` is an error of `HTTPMethod` or of `URITemplate.parse`. -/
def add (U : Unicode) (rs : Routes H) (method : MethodArg) (template : Str) (handler : H) :
    Option (Routes H) :=
  (method.toMethod U).bind fun m =>
    ((findTemplate rs.paths template).or (URITemplate.parse U template)).map fun key =>
      ⟨Dict.set key (Dict.set m handler ((Dict.get? key rs.paths).getD [])) rs.paths⟩

end Routes

/-- `_literal_prefix_len`: the number of letters before the first variable. -/
def literalPrefixLen (t : URITemplate) : Nat :=
  ((pieces none t.template).takeWhile fun
    | .lit _ => true
    | .var _ => false).length

/-- `f"r{i}"`. -/
def groupPrefix (i : Nat) : Str := 'r' :: Nat.toDigits 10 i

/-- `f"{prefix}_{name}"`. -/
def prefixed (pre name : Str) : Str := pre ++ '_' :: name

/-- `_reprefixed_regex_source`. -/
def reprefixedRegexSource (t : URITemplate) (pre : Str) : Str :=
  regexSource (prefixed pre) (pieces none t.template)

/-- The alternative of the `i`-th template. -/
def alternative (i : Nat) (t : URITemplate) : Str :=
  groupStart (groupPrefix i) ++ (reprefixedRegexSource t (groupPrefix i) ++ [')'])

/-- The alternatives of the combined pattern, numbered from `i`. -/
def alternatives : Nat → List URITemplate → List Str
  | _, [] => []
  | i, t :: ts => alternative i t :: alternatives (i + 1) ts

/-- `"^(?:" + "|".join(alternatives) + ")$"`. -/
def combinedSource (alts : List Str) : Str :=
  "^(?:".toList ++ ((alts.intersperse ['|']).flatten ++ ")$".toList)

namespace Router

/-- `^(?!)`. -/
def matchNothing : Re := Regex.seq [.start, .never]

/-- `r"^(?!)"` without routes, else the combined pattern. -/
def compileCombined (U : Unicode) (templates : List URITemplate) : Option Re :=
  if templates = [] then some matchNothing
  else compile U (combinedSource (alternatives 0 templates))

/-- One compiled route. -/
def compileRoute (item : URITemplate × MethodMap H) : Route H :=
  let allowHeader := formatAllowHeader (Dict.keys item.2)
  ⟨item.1, item.2, allowHeader, buildMethodNotAllowed allowHeader⟩

/-- `sorted(routes.paths.items(), key=_literal_prefix_len, reverse=True)`: equal keys stay in
order. -/
def ordered (items : List (URITemplate × MethodMap H)) : List (URITemplate × MethodMap H) :=
  items.insertionSort fun a b => literalPrefixLen b.1 ≤ literalPrefixLen a.1

/-- `Router.from_routes`; `none` is the `ValueError` for a duplicate or an error of `re`. -/
def fromRoutes (U : Unicode) (rs : Routes H) : Option (Router H) :=
  if ((Dict.keys rs.paths).map URITemplate.template).Nodup then
    (compileCombined U (Dict.keys (ordered rs.paths))).map fun regex =>
      ⟨(ordered rs.paths).map compileRoute, regex⟩
  else none

/-- `set.update`. -/
def update (allowed : List HTTPMethod) (methods : List HTTPMethod) : List HTTPMethod :=
  methods.foldl (fun s m => if m ∈ s then s else s ++ [m]) allowed

/-- The loop of `_match` and what follows it; `none` is the `AssertionError`. -/
def matchLoop (path : Str) (method : Option HTTPMethod) :
    List (Route H) → List HTTPMethod → Nat → Option (Response × Str) → Option (MatchResult H)
  | [], allowed, matched, single =>
    if matched = 1 then single.map fun answer => .methodNotAllowed answer.1 answer.2
    else if allowed ≠ [] then
      let answer := buildMethodNotAllowed (formatAllowHeader allowed)
      some (.methodNotAllowed answer.1 answer.2)
    else none
  | route :: routes, allowed, matched, single =>
    match route.template.match? path with
    | none => matchLoop path method routes allowed matched single
    | some args =>
      match method.bind fun m => (Dict.get? m route.methods).map fun handler => (m, handler) with
      | none =>
        matchLoop path method routes (update allowed (Dict.keys route.methods)) (matched + 1)
          (some route.method_not_allowed)
      | some (m, handler) => some (.ok handler ⟨m, route.template, args⟩)

/-- `Router._match`. -/
def match? (router : Router H) (path methodStr : Str) : Option (MatchResult H) :=
  if (router.regex.match? path).isNone then some .notFound
  else matchLoop path (HTTPMethod.ofValue methodStr) router.routes [] 0 none

end Router

/-- What `dispatch` does with a request: the handler runs with its match, or the router answers. -/
inductive Outcome (H : Type u) where
  | handled (handler : H) (found : RouteMatch)
  | answered (response : Response) (body : Str)
  deriving DecidableEq, Repr

/-- What `dispatch` does with the result of `_match`. -/
def outcomeOf : MatchResult H → Outcome H
  | .notFound => .answered notFoundResponse notFoundBody
  | .methodNotAllowed response body => .answered response body
  | .ok handler found => .handled handler found

/-- The `dispatch` of `as_handler`. -/
def Router.dispatch (router : Router H) (path methodStr : Str) : Option (Outcome H) :=
  (router.match? path methodStr).map outcomeOf

end LocalPost.Http.Routing
