import LocalPost.Core.Dict
import LocalPost.Http.Routing.Routes

/-!
# The document of an app

`openapi_doc` generates the document from the registered operations: every middleware contributes to
the root once, every operation adds its entry, and the schemas that were collected on the way go
into the components. What the parts of a document hold is up to the middlewares, the argument
resolvers and the adapters; the generation passes it on. All of them may raise.
-/

set_option autoImplicit false

namespace LocalPost.Openapi.Document

open LocalPost.Core LocalPost.Http.Routing

/-- What the generation passes on: responses, schemas, `Info`, the fields that it leaves at their
defaults, and the state of a `SchemaRegistry`. -/
structure Vocabulary where
  Response : Type
  Schema : Type
  Info : Type
  Rest : Type
  Registry : Type

variable {V : Vocabulary}

/-- `spec.Operation`; without `rest` the other fields have their defaults. -/
structure SpecOperation (V : Vocabulary) where
  summary : Str
  operation_id : Str
  description : Str
  responses : Dict Str V.Response
  rest : Option V.Rest

/-- `spec.PathItem`. -/
structure PathItem (V : Vocabulary) where
  operations : Dict Str (SpecOperation V)
  rest : Option V.Rest

/-- `spec.Components`. -/
structure Components (V : Vocabulary) where
  schemas : Dict Str V.Schema
  rest : Option V.Rest

/-- `spec.OpenAPI`. -/
structure OpenAPI (V : Vocabulary) where
  info : V.Info
  paths : Dict Str (PathItem V)
  components : Components V
  rest : Option V.Rest

/-- A contribution to a part of the document: it may collect schemas, and it may raise. -/
abbrev Contribution (V : Vocabulary) (α : Type) := α → V.Registry → Option (α × V.Registry)

/-- One contribution after the other. -/
def contributeAll {α : Type} (contributions : List (Contribution V α)) : Contribution V α :=
  fun x registry =>
    contributions.foldlM (fun part contribute => contribute part.1 part.2) (x, registry)

/-- `OpMiddleware`, as far as the document reads it; `id` is its identity. -/
structure Middleware (V : Vocabulary) where
  id : Nat
  contribute_root : Contribution V (OpenAPI V)
  contribute_operation : Contribution V (SpecOperation V)

/-- `Operation`, as far as the document reads it. A parameter that contributes nothing has no
factory; `build_responses` is applied to the return shapes. -/
structure Operation (V : Vocabulary) where
  method : HTTPMethod
  path : Str
  summary : Str
  operation_id : Str
  description : Str
  update_doc : List (Option (Contribution V (SpecOperation V)))
  build_responses : V.Registry → Option (Dict Str V.Response × V.Registry)
  middlewares : List (Middleware V)

/-- `Operation.build_spec`. -/
def Operation.buildSpec (op : Operation V) (registry : V.Registry) :
    Option (SpecOperation V × V.Registry) :=
  (contributeAll (op.update_doc.filterMap id)
    ⟨op.summary, op.operation_id, op.description, [], none⟩ registry).bind fun part =>
  (op.build_responses part.2).bind fun responses =>
  contributeAll (op.middlewares.map Middleware.contribute_operation)
    { part.1 with responses := responses.1 } responses.2

namespace OpenAPI

/-- `OpenAPI.add_operation`. -/
def addOperation (doc : OpenAPI V) (path method : Str) (operation : SpecOperation V) : OpenAPI V :=
  let m := method.map Char.toLower
  match Dict.get? path doc.paths with
  | none => { doc with paths := Dict.set path ⟨[(m, operation)], none⟩ doc.paths }
  | some existing =>
    { doc with
      paths :=
        Dict.set path
          { existing with operations := Dict.set m operation existing.operations } doc.paths }

/-- `OpenAPI.with_components`. -/
def withComponents (doc : OpenAPI V) (components : Components V) : OpenAPI V :=
  { doc with components := components }

/-- The document has an entry for the method on the path. -/
def Describes (doc : OpenAPI V) (path method : Str) : Prop :=
  ∃ item, Dict.get? path doc.paths = some item ∧ method.map Char.toLower ∈ Dict.keys item.operations

theorem describes_addOperation (doc : OpenAPI V) (path method : Str) (operation : SpecOperation V) :
    (doc.addOperation path method operation).Describes path method := by
  rw [addOperation]
  cases hitem : Dict.get? path doc.paths with
  | none => exact ⟨_, Dict.get?_set_self _ _ _, List.mem_cons_self⟩
  | some existing => exact ⟨_, Dict.get?_set_self _ _ _, Dict.mem_keys_set.2 (.inl rfl)⟩

/-- What is described stays so. -/
theorem Describes.addOperation {doc : OpenAPI V} {path method : Str} (h : doc.Describes path method)
    (path' method' : Str) (operation : SpecOperation V) :
    (doc.addOperation path' method' operation).Describes path method := by
  obtain ⟨item, hitem, hmem⟩ := h
  rw [OpenAPI.addOperation]
  by_cases hpath : path' = path
  · subst hpath
    rw [hitem]
    exact ⟨_, Dict.get?_set_self _ _ _, Dict.mem_keys_set.2 (.inr hmem)⟩
  · cases hitem' : Dict.get? path' doc.paths with
    | none => exact ⟨item, by rw [Dict.get?_set, if_neg hpath, hitem], hmem⟩
    | some existing => exact ⟨item, by rw [Dict.get?_set, if_neg hpath, hitem], hmem⟩

end OpenAPI

/-- The middlewares of a list without those met before, by identity. -/
def distinct : List Nat → List (Middleware V) → List (Middleware V)
  | _, [] => []
  | seen, mw :: mws => if mw.id ∈ seen then
    distinct seen mws else mw :: distinct (mw.id :: seen) mws

/-- Every identity that was not met before comes once. -/
theorem distinct_ids (seen : List Nat) (mws : List (Middleware V)) :
    ((distinct seen mws).map Middleware.id).Nodup ∧
      ∀ i, i ∈ (distinct seen mws).map Middleware.id ↔ i ∈ mws.map Middleware.id ∧ i ∉ seen := by
  induction mws generalizing seen with
  | nil => exact ⟨List.nodup_nil, fun i => by simp [distinct]⟩
  | cons mw mws ih =>
    rw [distinct]
    split
    -- the middleware was seen before: it is skipped
    · rename_i hseen
      refine ⟨(ih seen).1, fun i => ?_⟩
      rw [(ih seen).2 i, List.map_cons, List.mem_cons]
      constructor
      · exact fun h => ⟨.inr h.1, h.2⟩
      · rintro ⟨rfl | h, hnot⟩
        · exact absurd hseen hnot
        · exact ⟨h, hnot⟩
    -- it is new: it comes first, and is seen from here on
    · rename_i hseen
      obtain ⟨hnodup, hmem⟩ := ih (mw.id :: seen)
      rw [List.map_cons]
      refine ⟨List.nodup_cons.2 ⟨fun h => ((hmem _).1 h).2 List.mem_cons_self, hnodup⟩, fun i => ?_⟩
      rw [List.mem_cons, hmem, List.map_cons, List.mem_cons, List.mem_cons]
      constructor
      · rintro (rfl | ⟨h, hnot⟩)
        · exact ⟨.inl rfl, hseen⟩
        · exact ⟨.inr h, fun hi => hnot (.inr hi)⟩
      · rintro ⟨rfl | h, hnot⟩
        · exact .inl rfl
        · by_cases hi : i = mw.id
          · exact .inl hi
          · exact .inr ⟨h, by rintro (h | h) <;> contradiction⟩

/-- What an app is built with. `components` is that of the registry, `to_json` that of a
document. -/
structure Config (V : Vocabulary) where
  info : V.Info
  middlewares : List (Middleware V)
  registry : V.Registry
  components : V.Registry → Option (Dict Str V.Schema)
  to_json : OpenAPI V → Option (List UInt8)

namespace Config

/-- `_all_middlewares`. -/
def allMiddlewares (app : Config V) (ops : List (Operation V)) : List (Middleware V) :=
  app.middlewares ++ ops.flatMap Operation.middlewares

/-- The loop over the operations. -/
def addOperations (ops : List (Operation V)) : Contribution V (OpenAPI V) :=
  fun doc registry => ops.foldlM (fun part op => (op.buildSpec part.2).map fun spec =>
    (part.1.addOperation op.path op.method.value spec.1, spec.2)) (doc, registry)

/-- The document of these operations, as `openapi_doc` computes it. -/
def generate (app : Config V) (ops : List (Operation V)) : Option (OpenAPI V) :=
  (contributeAll ((distinct [] (app.allMiddlewares ops)).map Middleware.contribute_root)
    ⟨app.info, [], ⟨[], none⟩, none⟩ app.registry).bind fun root =>
  (addOperations ops root.1 root.2).bind fun part =>
  (app.components part.2).map fun schemas =>
  part.1.withComponents
    { part.1.components with schemas := Dict.setAll part.1.components.schemas schemas }

theorem addOperations_cons {op : Operation V} {ops : List (Operation V)} {doc : OpenAPI V}
    {registry : V.Registry}
    {out : OpenAPI V × V.Registry} (h : addOperations (op :: ops) doc registry = some out) :
    ∃ spec, op.buildSpec registry = some spec ∧
      addOperations ops (doc.addOperation op.path op.method.value spec.1) spec.2 = some out := by
  rw [addOperations, List.foldlM_cons] at h
  obtain ⟨part, hpart, hrest⟩ := Option.bind_eq_some_iff.1 h
  obtain ⟨spec, hspec, rfl⟩ := Option.map_eq_some_iff.1 hpart
  exact ⟨spec, hspec, hrest⟩

/-- The loop describes its operations and keeps what was described. -/
theorem describes_addOperations {ops : List (Operation V)} {doc : OpenAPI V} {registry : V.Registry}
    {out : OpenAPI V × V.Registry} (h : addOperations ops doc registry = some out) :
    (∀ op ∈ ops, out.1.Describes op.path op.method.value) ∧
      ∀ path method, doc.Describes path method → out.1.Describes path method := by
  induction ops generalizing doc registry with
  | nil =>
    cases h
    exact ⟨fun op hop => absurd hop List.not_mem_nil, fun path method h => h⟩
  | cons op ops ih =>
    obtain ⟨spec, -, hrest⟩ := addOperations_cons h
    obtain ⟨hops, hkeeps⟩ := ih hrest
    refine ⟨List.forall_mem_cons.2 ⟨?_, hops⟩, fun path method hdescribes => ?_⟩
    · apply hkeeps
      exact doc.describes_addOperation op.path op.method.value spec.1
    · apply hkeeps
      exact hdescribes.addOperation op.path op.method.value spec.1

/-- A document describes every operation that it was generated from. -/
theorem describes_of_generate {app : Config V} {ops : List (Operation V)} {doc : OpenAPI V}
    (h : app.generate ops = some doc) {op : Operation V} (hop : op ∈ ops) :
    doc.Describes op.path op.method.value := by
  obtain ⟨root, -, hpart⟩ := Option.bind_eq_some_iff.1 h
  obtain ⟨part, hops, hschemas⟩ := Option.bind_eq_some_iff.1 hpart
  obtain ⟨schemas, -, rfl⟩ := Option.map_eq_some_iff.1 hschemas
  exact (describes_addOperations hops).1 op hop

end Config

end LocalPost.Openapi.Document
