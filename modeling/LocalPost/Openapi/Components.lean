import LocalPost.Core.Dict

/-!
# The components of a document

`SchemaRegistry` sorts the types that the operations mention into one bucket for each adapter, and
describes them when the document is put together: `components` hands every adapter the part of its
bucket that it has not seen, until no bucket has such a part. The attrs adapter walks the fields of
its classes and comes back to `schema_for` for the types that it meets there, so the buckets grow on
the way.

msgspec, pydantic and attrs are the parameter `Libs`. A reference carries the type that it stands
for and a component the type that it describes; no step reads them.
-/

set_option autoImplicit false

namespace LocalPost.Openapi.Components

open LocalPost.Core

/-! ## Types and schemas -/

/-- The keys of `_PRIMITIVE_SCHEMAS`. -/
inductive Prim where
  | str
  | bool
  | int
  | float
  | bytes
  deriving DecidableEq, Repr

/-- The origins of generic aliases that `_field_schema` tells apart: `sequence` and `mapping` are
other subclasses of `Sequence` and `Mapping`. -/
inductive Origin where
  | list
  | set
  | frozenset
  | tuple
  | sequence
  | dict
  | mapping
  | other
  deriving DecidableEq, Repr

/-- `origin in (list, set, frozenset)`, or a subclass of `Sequence`, which `tuple` is. -/
def Origin.isSequence : Origin → Bool
  | .list => true
  | .set => true
  | .frozenset => true
  | .tuple => true
  | .sequence => true
  | _ => false

/-- `origin is dict`, or a subclass of `Mapping`. -/
def Origin.isMapping : Origin → Bool
  | .dict => true
  | .mapping => true
  | _ => false

/-- A value in a `Literal`. -/
inductive Value where
  | str (s : String)
  | int (i : Int)
  | bool (b : Bool)
  | null
  deriving DecidableEq, Repr

mutual

/-- What a handler or a field is annotated with; `cls` is a class or a special form of the
vocabulary `K`. -/
inductive Ann (K : Type) where
  | null
  | any
  | ellipsis
  | prim (p : Prim)
  | union (args : Args K)
  | literal (values : List Value)
  | generic (origin : Origin) (args : Args K)
  | cls (k : K)

/-- The arguments of a generic alias. -/
inductive Args (K : Type) where
  | nil
  | cons (head : Ann K) (tail : Args K)

end

deriving instance DecidableEq for Ann, Args

/-- `{"$ref": REF_TEMPLATE.format(name=name)}`, for the type `of`. -/
structure Ref (K : Type) where
  name : String
  of : Ann K
  deriving DecidableEq

/-- A schema fragment. `foreign` is one of msgspec or pydantic, of which only the references
matter. -/
inductive Schema (K : Type) where
  | permissive
  | null
  | prim (p : Prim)
  | ref (r : Ref K)
  | oneOf (options : List (Schema K))
  | enum (values : List Value)
  | array (items : Schema K)
  | mapping (additionalProperties : Schema K)
  | foreign (refs : List (Ref K))

/-- What stands under a name in `components.schemas`. -/
inductive Body (K : Type) where
  | object (title : String) (properties : List (String × Schema K)) (required : List String)
  | schema (s : Schema K)

/-- A component, with the type that it describes. -/
structure Entry (K : Type) where
  of : Ann K
  body : Body K

variable {K : Type}

mutual

/-- The references in a fragment. -/
def Schema.refs : Schema K → List (Ref K)
  | .ref r => [r]
  | .oneOf options => Schema.refsAll options
  | .array items => items.refs
  | .mapping additionalProperties => additionalProperties.refs
  | .foreign refs => refs
  | _ => []

def Schema.refsAll : List (Schema K) → List (Ref K)
  | [] => []
  | s :: options => s.refs ++ Schema.refsAll options

end

/-- The references in a component. -/
def Body.refs : Body K → List (Ref K)
  | .object _ properties _ => properties.flatMap fun property => property.2.refs
  | .schema s => s.refs

/-- Nothing but a reference. -/
def Schema.isRef : Schema K → Bool
  | .ref _ => true
  | _ => false

def Body.isRef : Body K → Bool
  | .object _ _ _ => false
  | .schema s => s.isRef

/-! ## The libraries -/

/-- The adapters of `default_registry`. -/
inductive Adapter where
  | pydantic
  | attrs
  | msgspec
  deriving DecidableEq, Repr

/-- A field of an attrs class. -/
structure Field (K : Type) where
  name : String
  type : Ann K
  hasDefault : Bool

/-- What the program asks of the type objects and of the libraries: `for_type`, which is by
`claims`; `__name__`; `attrs.fields` behind `attrs.resolve_types`, `none` where that raises for an
annotation that it cannot resolve; `model_json_schema` without its `$defs`, `none` where it raises;
and `msgspec.json.schema_components`, `none` where it raises `TypeError` or `RuntimeError`. -/
structure Libs (K : Type) where
  forType : Ann K → Adapter
  name : Ann K → String
  fields : Ann K → Option (List (Field K))
  modelJsonSchema : Ann K → Option (Schema K)
  schemaComponents : List (Ann K) → Option (List (Schema K) × Dict String (Entry K))

/-- What is documented of `schema_components`: it raises for a type that it cannot describe, every
reference in a component that it returns is to a component that it returns, and a component is a
description. -/
structure Libs.Documented (L : Libs K) : Prop where
  raises : ∀ ts, (L.schemaComponents ts).isSome = true ↔
    ∀ t ∈ ts, (L.schemaComponents [t]).isSome = true
  closed : ∀ ts schemas components, L.schemaComponents ts = some (schemas, components) →
    ∀ e ∈ components, ∀ r ∈ e.2.body.refs, ∃ e' ∈ components, e'.1 = r.name ∧ e'.2.of = r.of
  describes : ∀ ts schemas components, L.schemaComponents ts = some (schemas, components) →
    ∀ e ∈ components, e.2.body.isRef = false

namespace Libs

variable (L : Libs K)

/-- `adapter.schema(t)` of the adapter that claims `t`. -/
def schema (t : Ann K) : Schema K :=
  match L.forType t with
  | .msgspec =>
    match L.schemaComponents [t] with
    | some (s :: _, _) => s
    | _ => .permissive
  | _ => .ref ⟨L.name t, t⟩

end Libs

/-! ## The registry -/

/-- `_types_by_adapter`: its keys in the order of insertion, and the buckets. -/
structure Registry (K : Type) where
  keys : List Adapter
  bucket : Adapter → List (Ann K)

variable [DecidableEq K]

namespace Registry

variable (L : Libs K)

omit [DecidableEq K] in
/-- A new registry. -/
def empty : Registry K := ⟨[], fun _ => []⟩

/-- `setdefault(adapter, [])`, and `t` behind the types of the adapter unless it is there. -/
def register (reg : Registry K) (t : Ann K) : Registry K where
  keys := if L.forType t ∈ reg.keys then reg.keys else reg.keys ++ [L.forType t]
  bucket a :=
    if a = L.forType t then
      if t ∈ reg.bucket a then reg.bucket a else reg.bucket a ++ [t]
    else reg.bucket a

end Registry

/-- What fails while components are collected: the unpacking of the arguments of an alias,
`schema_components`, `resolve_types`, `model_json_schema`. -/
inductive Raised where
  | valueError
  | typeError
  | nameError
  | invalidForJsonSchema
  deriving DecidableEq, Repr

/-- A program that may register types and may raise. -/
abbrev Collecting (K α : Type) := StateT (Registry K) (Except Raised) α

/-- `schema_for`. -/
def schemaFor (L : Libs K) (t : Ann K) : Collecting K (Schema K) :=
  if t = .null then pure .null
  else do
    modify (·.register L t)
    pure (L.schema t)

mutual

/-- `_field_schema`. -/
def fieldSchema (L : Libs K) : Ann K → Collecting K (Schema K)
  | .null => pure .null
  | .prim p => pure (.prim p)
  | .union args => do
    let options ← fieldSchemas L args
    pure (.oneOf options)
  | .literal values => pure (.enum values)
  | .generic origin args =>
    -- a `tuple` is a `Sequence`, so the branch for it further down is never reached
    if origin.isSequence then
      match args with
      | .nil => do
        let items ← schemaFor L .any
        pure (.array items)
      | .cons item .nil => do
        let items ← fieldSchema L item
        pure (.array items)
      | .cons _ (.cons _ _) => throw .valueError
    else if origin.isMapping then
      match args with
      | .cons _ (.cons value .nil) => do
        let additionalProperties ← fieldSchema L value
        pure (.mapping additionalProperties)
      | _ => do
        let additionalProperties ← schemaFor L .any
        pure (.mapping additionalProperties)
    else schemaFor L (.generic origin args)
  | .any => schemaFor L .any
  | .ellipsis => schemaFor L .ellipsis
  | .cls k => schemaFor L (.cls k)

def fieldSchemas (L : Libs K) : Args K → Collecting K (List (Schema K))
  | .nil => pure []
  | .cons head tail => do
    let s ← fieldSchema L head
    let options ← fieldSchemas L tail
    pure (s :: options)

end

/-- The `properties` of `_object_schema`. -/
def properties (L : Libs K) : List (Field K) → Collecting K (List (String × Schema K))
  | [] => pure []
  | f :: fields => do
    let s ← fieldSchema L f.type
    let rest ← properties L fields
    pure ((f.name, s) :: rest)

/-- `_resolve`, with the fields of the class that it leaves. -/
def resolve (L : Libs K) (t : Ann K) : Collecting K (List (Field K)) :=
  match L.fields t with
  | some fields => pure fields
  | none => throw .nameError

/-- `_object_schema`. -/
def objectSchema (L : Libs K) (t : Ann K) (fields : List (Field K)) : Collecting K (Body K) := do
  let props ← properties L fields
  pure (.object (L.name t) props ((fields.filter (!·.hasDefault)).map (·.name)))

/-- `AttrsAdapter.components`, from the dictionary `out` on. -/
def attrsComponents (L : Libs K) (out : Dict String (Entry K)) :
    List (Ann K) → Collecting K (Dict String (Entry K))
  | [] => pure out
  | t :: types => do
    let fields ← resolve L t
    let body ← objectSchema L t fields
    attrsComponents L (out.set (L.name t) ⟨t, body⟩) types

/-- `PydanticAdapter.components`, from the dictionary `out` on. -/
def pydanticComponents (L : Libs K) (out : Dict String (Entry K)) :
    List (Ann K) → Collecting K (Dict String (Entry K))
  | [] => pure out
  | t :: types =>
    match L.modelJsonSchema t with
    | some raw => pydanticComponents L (out.set (L.name t) ⟨t, .schema raw⟩) types
    | none => throw .invalidForJsonSchema

/-- `adapter.components(types)`. -/
def Adapter.components (L : Libs K) (types : List (Ann K)) :
    Adapter → Collecting K (Dict String (Entry K))
  | .pydantic => pydanticComponents L [] types
  | .attrs => attrsComponents L [] types
  | .msgspec =>
    match L.schemaComponents types with
    | some (_, components) => pure components
    | none => throw .typeError

/-- A call of `adapter.components`, with its answer. -/
structure Call (K : Type) where
  adapter : Adapter
  types : List (Ann K)
  answer : Dict String (Entry K)

/-- The loop of `components`, with a record of its calls, which no step reads. -/
structure Drain (K : Type) where
  reg : Registry K
  processed : Adapter → Nat
  schemas : Dict String (Entry K)
  calls : List (Call K)

namespace Drain

variable (L : Libs K)

omit [DecidableEq K] in
/-- The beginning of the loop. -/
def start (reg : Registry K) : Drain K := ⟨reg, fun _ => 0, [], []⟩

/-- The body of the inner loop; it says whether it has made progress. -/
def turn (d : Drain K) (a : Adapter) : Except Raised (Drain K × Bool) :=
  if (d.reg.bucket a).length ≤ d.processed a then .ok (d, false)
  else
    let pending := (d.reg.bucket a).drop (d.processed a)
    match a.components L pending d.reg with
    | .error e => .error e
    | .ok (answer, reg) =>
      .ok (⟨reg, fun b => if b = a then (d.reg.bucket a).length else d.processed b,
        d.schemas.setAll answer, d.calls ++ [⟨a, pending, answer⟩]⟩, true)

/-- The inner loop. -/
def turns : List Adapter → Drain K → Except Raised (Drain K × Bool)
  | [], d => .ok (d, false)
  | a :: as, d =>
    match d.turn L a with
    | .error e => .error e
    | .ok (d', made) => (turns as d').map fun result => (result.1, made || result.2)

/-- `while True`, at most `fuel` times; the keys are those at the beginning of a pass. -/
def run : Nat → Drain K → Option (Except Raised (Drain K))
  | 0, _ => none
  | fuel + 1, d =>
    match d.turns L d.reg.keys with
    | .error e => some (.error e)
    | .ok (d', true) => run fuel d'
    | .ok (d', false) => some (.ok d')

end Drain

/-- The calls of `schema_for` of the operations, in turn. -/
def registerAll (L : Libs K) (asked : List (Ann K)) (reg : Registry K) : Registry K :=
  asked.foldl (fun reg t => if t = .null then reg else reg.register L t) reg

/-- A new registry, the calls of `schema_for`, and `components`. -/
def collect (L : Libs K) (fuel : Nat) (asked : List (Ann K)) : Option (Except Raised (Drain K)) :=
  (Drain.start (registerAll L asked .empty)).run L fuel

end LocalPost.Openapi.Components
