import Mathlib.Data.List.DropRight
import LocalPost.Openapi.Document
import LocalPost.Http.Routing.Template

/-!
# From signatures to operations

`Operation.create` picks a resolver for every parameter of a handler and checks them against the
path template. A resolver describes its parameter in the document by adding to the operation; the
middlewares of an operation, which have signatures of their own, add to it after the handler.
Nothing that adds looks at what is there (`Adds`), except that a middleware leaves the responses of
the operation alone.
-/

set_option autoImplicit false

namespace LocalPost.Openapi.Signature

open LocalPost.Core LocalPost.Http.Routing LocalPost.Openapi.Document

/-! ## The parts of an operation -/

/-- What the signatures are written in, with `str`, and what the document takes from the adapters:
`is_body_type`, the check against the context types, the one against `Any`, `_unwrap_optional`,
`SchemaRegistry.schema_for`, and the schemas `{"type": "string"}` and `{}`. -/
structure Parts where
  T : Type
  str : T
  Response : Type
  Schema : Type
  Info : Type
  Registry : Type
  isBodyType : T → Bool
  isCtx : T → Bool
  isAny : T → Bool
  unwrapOptional : T → Option T
  schemaFor : T → Registry → Option (Schema × Registry)
  string : Schema
  permissive : Schema

/-- `ParameterLocation`. -/
inductive Location where
  | query
  | header
  | path
  | cookie
  deriving DecidableEq, Repr

/-- `spec.Parameter`. -/
structure Parameter (P : Parts) where
  name : Str
  location : Location
  required : Bool
  description : Str
  schema : P.Schema

/-- What the well-formedness of a document is about, of a parameter. -/
structure Slot where
  name : Str
  location : Location
  required : Bool
  deriving DecidableEq, Repr

def Parameter.slot {P : Parts} (p : Parameter P) : Slot := ⟨p.name, p.location, p.required⟩

/-- `spec.RequestBody`, with its one content type. -/
structure RequestBody (P : Parts) where
  description : Str
  required : Bool
  contentType : Str
  schema : P.Schema

/-- `spec.SecurityRequirement`: scheme names with their scopes. -/
abbrev Requirement := Dict Str (List Str)

/-- `spec.SecurityScheme`. -/
structure SecurityScheme where
  type : Str
  scheme : Str
  bearerFormat : Str
  description : Str
  deriving DecidableEq, Repr

/-- The other fields of `spec.Operation` that are written. -/
structure OperationFields (P : Parts) where
  parameters : List (Parameter P)
  requestBody : Option (RequestBody P)
  security : List Requirement

/-- The fields behind the `rest` of a record. -/
inductive Fields (P : Parts) where
  | operation (fields : OperationFields P)
  | components (securitySchemes : Dict Str SecurityScheme)

/-- The vocabulary of the document. -/
abbrev vocabulary (P : Parts) : Vocabulary := ⟨P.Response, P.Schema, P.Info, Fields P, P.Registry⟩

variable {P : Parts}

abbrev SpecOp (P : Parts) := SpecOperation (vocabulary P)

abbrev Doc (P : Parts) := OpenAPI (vocabulary P)

/-- The fields of an operation; at first they have their defaults. -/
def fieldsOf (op : SpecOp P) : OperationFields P :=
  match op.rest with
  | some (.operation fields) => fields
  | _ => ⟨[], none, []⟩

/-- `replace(op, …)` of these fields. -/
def withFields (op : SpecOp P) (fields : OperationFields P) : SpecOp P :=
  { op with rest := some (.operation fields) }

@[simp] theorem fieldsOf_withFields (op : SpecOp P) (fields : OperationFields P) :
    fieldsOf (withFields op fields) = fields := rfl

@[simp] theorem operation_id_withFields (op : SpecOp P) (fields : OperationFields P) :
    (withFields op fields).operation_id = op.operation_id := rfl

/-- `components.security_schemes`. -/
def securitySchemes (doc : Doc P) : Dict Str SecurityScheme :=
  match doc.components.rest with
  | some (.components schemes) => schemes
  | _ => []

/-- `_add_security_scheme`. -/
def addSecurityScheme (doc : Doc P) (name : Str) (scheme : SecurityScheme) : Doc P :=
  { doc with components :=
    { doc.components with
      rest := some (.components (Dict.set name scheme (securitySchemes doc))) } }

/-- `_add_security_requirement`, with the default for `scopes`. -/
def addSecurityRequirement (op : SpecOp P) (schemeName : Str) : SpecOp P :=
  withFields op { fieldsOf op with security := (fieldsOf op).security ++ [[(schemeName, [])]] }

/-! ## Contributions that add -/

/-- A contribution to an operation that adds these parameters and requirements to those that are
there, and leaves the operation id. -/
def Adds (contribute : Contribution (vocabulary P) (SpecOp P)) (slots : List Slot)
    (security : List Requirement) :
    Prop :=
  ∀ op registry op' registry', contribute op registry = some (op', registry') →
    op'.operation_id = op.operation_id ∧
      (fieldsOf op').parameters.map Parameter.slot = (fieldsOf op).parameters.map
        Parameter.slot ++ slots ∧
      (fieldsOf op').security = (fieldsOf op).security ++ security

/-- A contribution to the root that adds security schemes of these names to those that are there,
and no path. -/
def AddsRoot (contribute : Contribution (vocabulary P) (Doc P)) (schemes : List Str) : Prop :=
  ∀ doc registry doc' registry', contribute doc registry = some (doc', registry') →
    doc'.paths = doc.paths ∧
      ∀ n, n ∈ Dict.keys (securitySchemes doc') ↔ n ∈ Dict.keys (securitySchemes doc) ∨ n ∈ schemes

theorem Adds.nil : Adds (contributeAll (V := vocabulary P) []) [] [] := by
  intro op registry op' registry' hrun
  cases hrun
  simp

/-- One contribution and then others. -/
theorem Adds.cons {c : Contribution (vocabulary P) (SpecOp P)}
    {cs : List (Contribution (vocabulary P) (SpecOp P))}
    {slots slots' : List Slot} {security security' : List Requirement} (h : Adds c slots security)
    (hs : Adds (contributeAll cs) slots' security') :
    Adds (contributeAll (c :: cs)) (slots ++ slots') (security ++ security') := by
  intro op registry op' registry' hrun
  unfold contributeAll at hrun
  rw [List.foldlM_cons] at hrun
  obtain ⟨⟨op₁, registry₁⟩, hfirst, hrest⟩ := Option.bind_eq_some_iff.1 hrun
  obtain ⟨hid, hslots, hsecurity⟩ := h op registry op₁ registry₁ hfirst
  obtain ⟨hid', hslots', hsecurity'⟩ := hs op₁ registry₁ op' registry' hrest
  refine ⟨hid'.trans hid, ?_, ?_⟩
  · rw [hslots', hslots, List.append_assoc]
  · rw [hsecurity', hsecurity, List.append_assoc]

theorem AddsRoot.nothing : AddsRoot (P := P) (fun doc registry => some (doc, registry)) [] := by
  intro doc registry doc' registry' hrun
  cases hrun
  exact ⟨rfl, fun n => by simp⟩

/-! ## Resolvers -/

/-- `inspect.Parameter`, the annotation stripped of `Annotated`; `none` where there is none. -/
structure Param (P : Parts) where
  name : Str
  annotation : Option P.T
  hasDefault : Bool

/-- `name or default`. -/
def orElse (name : Option Str) (dflt : Str) : Str :=
  match name with
  | some (c :: cs) => c :: cs
  | _ => dflt

/-- `_is_optional_param`, without the default value. -/
def Param.isOptional (param : Param P) : Option P.T × Bool :=
  match param.annotation.bind P.unwrapOptional with
  | some inner => (some inner, true)
  | none => (param.annotation, param.hasDefault)

theorem Param.isOptional_of_hasDefault {param : Param P} (h : param.hasDefault = true) :
    param.isOptional.2 = true := by
  unfold isOptional
  split
  · rfl
  · exact h

/-- `registry.schema_for(target) if target is not Any else …`; a missing annotation counts as
`Any`. -/
def schemaOf (target : Option P.T) (dflt : P.Schema) (registry : P.Registry) :
    Option (P.Schema × P.Registry) :=
  match target with
  | none => some (dflt, registry)
  | some t => if P.isAny t then some (dflt, registry) else P.schemaFor t registry

/-- A resolver of the user's own, which by the documentation describes itself by what it adds. -/
structure CustomFactory (P : Parts) where
  updateDoc : Param P → Contribution (vocabulary P) (SpecOp P)
  slots : Param P → List Slot
  security : Param P → List Requirement
  adds : ∀ param, Adds (updateDoc param) (slots param) (security param)

/-- `ArgResolverFactory`. -/
inductive Factory (P : Parts) where
  | fromPath (name : Option Str) (description : Str)
  | fromQuery (name : Option Str) (description : Str)
  | fromHeader (name : Option Str) (description : Str)
  | fromBody (contentType description : Str)
  | custom (factory : CustomFactory P)

/-- A parameter that is added to an operation. -/
def addParameter (slot : Slot) (description : Str) (target : Option P.T) :
    Contribution (vocabulary P) (SpecOp P) :=
  fun op registry => (schemaOf target P.string registry).map fun found =>
    (withFields op { fieldsOf op with
      parameters := (fieldsOf op).parameters ++
        [⟨slot.name, slot.location, slot.required, description, found.1⟩] },
      found.2)

theorem adds_addParameter (slot : Slot) (description : Str) (target : Option P.T) :
    Adds (addParameter slot description target) [slot] [] := by
  intro op registry op' registry' hrun
  obtain ⟨found, -, hfound⟩ := Option.map_eq_some_iff.1 hrun
  cases hfound
  exact ⟨rfl, by simp [Parameter.slot], by simp⟩

namespace Factory

/-- What a resolver adds to the parameters of an operation. -/
def slots : Factory P → Param P → List Slot
  | .fromPath name _, param => [⟨orElse name param.name, .path, true⟩]
  | .fromQuery name _, param => [⟨orElse name param.name, .query, !param.isOptional.2⟩]
  | .fromHeader name _, param =>
    [⟨orElse name (param.name.map fun c => if c = '_' then '-' else c), .header,
      !param.isOptional.2⟩]
  | .fromBody _ _, _ => []
  | .custom factory, param => factory.slots param

/-- What it adds to the security requirements. -/
def security : Factory P → Param P → List Requirement
  | .custom factory, param => factory.security param
  | _, _ => []

/-- `update_doc`. -/
def updateDoc : Factory P → Param P → Contribution (vocabulary P) (SpecOp P)
  | .fromPath name description, param =>
    addParameter ⟨orElse name param.name, .path, true⟩ description param.annotation
  | .fromQuery name description, param =>
    addParameter ⟨orElse name param.name, .query, !param.isOptional.2⟩
      description param.isOptional.1
  | .fromHeader name description, param =>
    addParameter ⟨orElse name (param.name.map fun c => if c = '_' then '-' else c), .header,
      !param.isOptional.2⟩
      description param.isOptional.1
  | .fromBody contentType description, param => fun op registry =>
    (schemaOf param.annotation P.permissive registry).map fun found =>
      (withFields op { fieldsOf op with
        requestBody := some ⟨description, !param.hasDefault, contentType, found.1⟩ }, found.2)
  | .custom factory, param => factory.updateDoc param

/-- A factory adds the slots and the security that it has. -/
theorem adds (f : Factory P) (param : Param P) :
    Adds (f.updateDoc param) (f.slots param) (f.security param) := by
  cases f with
  | fromPath name description => exact adds_addParameter _ _ _
  | fromQuery name description => exact adds_addParameter _ _ _
  | fromHeader name description => exact adds_addParameter _ _ _
  | fromBody contentType description =>
    intro op registry op' registry' hrun
    obtain ⟨found, -, hfound⟩ := Option.map_eq_some_iff.1 hrun
    cases hfound
    exact ⟨rfl, by simp [slots], by simp [security]⟩
  | custom factory => exact factory.adds param

end Factory

/-! ## Signatures -/

/-- A parameter of a function: whether it is `*args` or `**kwargs`, and the metadata of its
`Annotated`, in which only resolvers count. -/
structure Formal (P : Parts) where
  param : Param P
  variadic : Bool
  metadata : List (Option (Factory P))

/-- A parameter with the resolver that is picked for it; none for the request context. -/
abbrev Resolved (P : Parts) := Param P × Option (Factory P)

/-- `_pick_factory`. -/
def pickFactory (formal : Formal P) (pathVarNames : List Str) : Option (Factory P) :=
  match formal.metadata.findSome? id with
  | some factory => some factory
  | none =>
    if formal.param.name ∈ pathVarNames then some (.fromPath (some formal.param.name) [])
    else if formal.param.annotation.any P.isCtx then none
    else if formal.param.annotation.any P.isBodyType then
      some (.fromBody "application/json".toList [])
    else some (.fromQuery (some formal.param.name) [])

/-- `build_arg_resolvers`, what it returns for the document; `none` is its `ValueError`. -/
def buildArgResolvers (signature : List (Formal P)) (pathVarNames exclude : List Str) :
    Option (List (Resolved P)) :=
  let formals := signature.filter fun formal => formal.param.name ∉ exclude
  if formals.any (·.variadic) then none
  else some (formals.map fun formal => (formal.param, pickFactory formal pathVarNames))

namespace Resolved

/-- The contribution of a parameter; the request context has none. -/
def updateDoc (r : Resolved P) : Option (Contribution (vocabulary P) (SpecOp P)) :=
  r.2.map fun f => f.updateDoc r.1

/-- What the parameter adds. -/
def slots (r : Resolved P) : List Slot := (r.2.map fun f => f.slots r.1).getD []

def security (r : Resolved P) : List Requirement := (r.2.map fun f => f.security r.1).getD []

/-- The template variable of a `FromPath`. -/
def bound (r : Resolved P) : Option Str :=
  match r.2 with
  | some (.fromPath name _) => some (orElse name r.1.name)
  | _ => none

theorem adds_all (rs : List (Resolved P)) :
    Adds (contributeAll ((rs.map updateDoc).filterMap id)) (rs.flatMap slots)
      (rs.flatMap security) := by
  induction rs with
  | nil => exact Adds.nil
  | cons r rs ih =>
    obtain ⟨param, factory⟩ := r
    cases factory with
    | none => exact ih
    | some f => exact (f.adds param).cons ih

end Resolved

/-! ## Middlewares -/

/-- A function with a signature: its `__name__`, its documentation, its parameters, and
`build_responses` of the shapes of its return annotation. -/
structure Function (P : Parts) where
  name : Option Str
  doc : Str
  signature : List (Formal P)
  buildResponses : P.Registry → Option (Dict Str P.Response × P.Registry)

/-- `OpMiddleware`, with what it adds to every operation that has it and to the root. -/
structure OpMiddleware (P : Parts) where
  id : Nat
  contributeRoot : Contribution (vocabulary P) (Doc P)
  contributeOperation : Contribution (vocabulary P) (SpecOp P)
  slots : List Slot
  security : List Requirement
  schemes : List Str
  adds : Adds contributeOperation slots security
  addsRoot : AddsRoot contributeRoot schemes

/-- As the document has it. -/
def OpMiddleware.toMiddleware (mw : OpMiddleware P) : Middleware (vocabulary P) :=
  ⟨mw.id, mw.contributeRoot, mw.contributeOperation⟩

/-- The responses of a middleware, but not for codes that the operation has. -/
def mergeResponses (responses : Dict Str P.Response) (op : SpecOp P) : SpecOp P :=
  responses.foldl (fun op response =>
    if response.1 ∈ Dict.keys op.responses then op
    else { op with responses := Dict.set response.1 response.2 op.responses }) op

/-- `_FunctionMiddleware.contribute_operation`. -/
def contributeFunction (resolved : List (Resolved P))
    (buildResponses : P.Registry → Option (Dict Str P.Response × P.Registry)) :
    Contribution (vocabulary P) (SpecOp P) := fun op registry =>
  (contributeAll ((resolved.map Resolved.updateDoc).filterMap id) op registry).bind fun part =>
  (buildResponses part.2).map fun built => (mergeResponses built.1 part.1, built.2)

/-- Merged responses change nothing else of the operation. -/
theorem mergeResponses_spec (responses : Dict Str P.Response) (op : SpecOp P) :
    (mergeResponses responses op).operation_id = op.operation_id ∧
      fieldsOf (mergeResponses responses op) = fieldsOf op := by
  unfold mergeResponses
  induction responses generalizing op with
  | nil => exact ⟨rfl, rfl⟩
  | cons response responses ih =>
    rw [List.foldl_cons]
    split
    · exact ih op
    · exact ih { op with responses := Dict.set response.1 response.2 op.responses }

/-- The parameters of a function add their slots and their security. -/
theorem adds_contributeFunction (resolved : List (Resolved P))
    (buildResponses : P.Registry → Option (Dict Str P.Response × P.Registry)) :
    Adds (contributeFunction resolved buildResponses) (resolved.flatMap Resolved.slots)
      (resolved.flatMap Resolved.security) := by
  intro op registry op' registry' hrun
  obtain ⟨part, hpart, hrest⟩ := Option.bind_eq_some_iff.1 hrun
  obtain ⟨built, -, hbuilt⟩ := Option.map_eq_some_iff.1 hrest
  cases hbuilt
  obtain ⟨hid, hslots, hsecurity⟩ := Resolved.adds_all resolved op registry part.1 part.2 hpart
  obtain ⟨hid', hfields⟩ := mergeResponses_spec built.1 part.1
  rw [hfields]
  exact ⟨hid'.trans hid, hslots, hsecurity⟩

/-- The contribution to the root that `with_root` sets, by the documentation security schemes;
`none` leaves the document. -/
structure RootContribution (P : Parts) where
  contribute : Contribution (vocabulary P) (Doc P)
  schemes : List Str
  adds : AddsRoot contribute schemes

/-- `contribute_root` of a function middleware without a contribution of its own. -/
def RootContribution.nothing : RootContribution P :=
  ⟨fun doc registry => some (doc, registry), [], AddsRoot.nothing⟩

/-- `op_middleware`, and `with_root`; `none` is the `ValueError` for a missing `call_next` or for a
signature. -/
def opMiddleware (id : Nat) (fn : Function P) (root : RootContribution P) :
    Option (OpMiddleware P) :=
  if "call_next".toList ∈ fn.signature.map fun formal => formal.param.name then
    (buildArgResolvers fn.signature [] ["call_next".toList]).map fun resolved =>
      ⟨id, root.contribute, contributeFunction resolved fn.buildResponses,
        resolved.flatMap Resolved.slots,
        resolved.flatMap Resolved.security, root.schemes,
          adds_contributeFunction resolved fn.buildResponses, root.adds⟩
  else none

theorem addsRoot_addSecurityScheme (name : Str) (scheme : SecurityScheme) :
    AddsRoot (P := P) (fun doc registry => some (addSecurityScheme doc name scheme, registry))
      [name] := by
  intro doc registry doc' registry' hrun
  cases hrun
  refine ⟨rfl, fun n => ?_⟩
  rw [List.mem_singleton, or_comm]
  exact Dict.mem_keys_set

/-- A security requirement is added behind those of the contribution. -/
theorem Adds.security {contribute : Contribution (vocabulary P) (SpecOp P)} {slots : List Slot}
    {security : List Requirement} (h : Adds contribute slots security) (schemeName : Str) :
    Adds (fun op registry => (contribute op registry).map fun part =>
      (addSecurityRequirement part.1 schemeName, part.2)) slots
          (security ++ [[(schemeName, [])]]) := by
  intro op registry op' registry' hrun
  obtain ⟨part, hpart, hdone⟩ := Option.map_eq_some_iff.1 hrun
  cases hdone
  obtain ⟨hid, hslots, hsecurity⟩ := h op registry part.1 part.2 hpart
  refine ⟨hid, hslots, ?_⟩
  rw [← List.append_assoc, ← hsecurity]
  rfl

/-- What the inner functions of the authentication middlewares read besides the context: the
header. -/
def authorization : Resolved P :=
  (⟨"authorization".toList, some P.str, true⟩, some (.fromHeader (some "Authorization".toList) []))

/-- `HttpBearerAuth` and `HttpBasicAuth`: a function middleware that reads the header
`Authorization` and may answer 401 (`buildResponses`), with a requirement and a scheme. -/
def httpAuth (id : Nat) (schemeName : Str) (scheme : SecurityScheme)
    (buildResponses : P.Registry → Option (Dict Str P.Response × P.Registry)) : OpMiddleware P where
  id := id
  contributeRoot doc registry := some (addSecurityScheme doc schemeName scheme, registry)
  contributeOperation op registry :=
    (contributeFunction [authorization] buildResponses op registry).map fun part =>
      (addSecurityRequirement part.1 schemeName, part.2)
  slots := [⟨"Authorization".toList, .header, false⟩]
  security := [[(schemeName, [])]]
  schemes := [schemeName]
  adds := by
    have hslots : [authorization (P := P)].flatMap Resolved.slots =
      [⟨"Authorization".toList, .header, false⟩] := by
      have hoptional : (authorization (P := P)).1.isOptional.2 = true :=
        Param.isOptional_of_hasDefault rfl
      change [Slot.mk (orElse (some "Authorization".toList) _) .header
        (!(authorization (P := P)).1.isOptional.2)] = _
      rw [hoptional]
      rfl
    rw [← hslots]
    exact (adds_contributeFunction [authorization] buildResponses).security schemeName
  addsRoot := addsRoot_addSecurityScheme schemeName scheme

/-- `HttpBearerAuth`. -/
def httpBearerAuth (id : Nat) (schemeName bearerFormat description : Str)
    (buildResponses : P.Registry → Option (Dict Str P.Response × P.Registry)) : OpMiddleware P :=
  httpAuth id schemeName ⟨"http".toList, "bearer".toList, bearerFormat, description⟩ buildResponses

/-- `HttpBasicAuth`. -/
def httpBasicAuth (id : Nat) (schemeName description : Str)
    (buildResponses : P.Registry → Option (Dict Str P.Response × P.Registry)) : OpMiddleware P :=
  httpAuth id schemeName ⟨"http".toList, "basic".toList, [], description⟩ buildResponses

/-! ## Operations -/

/-- `_path_to_id`. -/
def pathToId (path : Str) : Str :=
  let cleaned := (path.map fun c => if c = '/' then '_' else c).filter fun c => c ≠ '{' ∧ c ≠ '}'
  let stripped := (cleaned.dropWhile (· = '_')).rdropWhile (· = '_')
  if stripped = [] then "root".toList else stripped

/-- `operation_id`. -/
def operationId (method : HTTPMethod) (path : Str) (fn : Function P) : Str :=
  let name := fn.name.getD []
  if name ≠ [] ∧ name ∉ ["<lambda>".toList, "_".toList] then name
  else method.value.map Char.toLower ++ ('_' :: pathToId path)

/-- What a decorator of an app is called with, for a function. -/
structure Registration (P : Parts) where
  method : HTTPMethod
  path : Str
  fn : Function P
  middlewares : List (OpMiddleware P)

namespace Registration

/-- The resolvers of the handler, with the names of the variables of its template:
`Operation.create` up to the check of the path bindings, and `none` where it raises. -/
def resolve (U : Unicode) (r : Registration P) : Option (URITemplate × List (Resolved P)) :=
  (URITemplate.parse U r.path).bind fun template =>
  (buildArgResolvers r.fn.signature template.variable_names []).bind fun resolved =>
  let boundPathVars := resolved.filterMap Resolved.bound
  if boundPathVars.all (· ∈ template.variable_names) && template.variable_names.all
    (· ∈ boundPathVars) then
    some (template, resolved)
  else none

/-- The summary and the description, off the documentation of the handler. -/
def summary (r : Registration P) : Str :=
  if r.fn.doc = [] then r.method.value ++ ' ' :: r.path else r.fn.doc.takeWhile (· ≠ '\n')

def description (r : Registration P) : Str :=
  if r.fn.doc = [] then [] else (r.fn.doc.drop r.summary.length).dropWhile (· = '\n')

/-- `Operation.create`, with the middlewares of the app in front of those of the operation. -/
def create (U : Unicode) (appMiddlewares : List (OpMiddleware P)) (r : Registration P) :
    Option (Document.Operation (vocabulary P)) :=
  (r.resolve U).map fun found =>
    { method := r.method
      path := r.path
      summary := r.summary
      operation_id := operationId r.method r.path r.fn
      description := r.description
      update_doc := found.2.map Resolved.updateDoc
      build_responses := r.fn.buildResponses
      middlewares := (appMiddlewares ++ r.middlewares).map OpMiddleware.toMiddleware }

end Registration

end LocalPost.Openapi.Signature
