import LocalPost.Core.Utf8
import LocalPost.Http.Types
import LocalPost.Openapi.Signature

/-!
# Required in the document and at run time

`FromQuery` and `FromHeader` take the question of what is required from `_is_optional_param`, for
the document and for a request. `FromBody` documents a body as required unless the parameter has a
default, but its resolver never looks at the default: an empty body is an error for the types of an
adapter, and is `b""` or `""` for `bytes` and `str`.

`required_iff` says for each kind of resolver when the document is right about a request without the
input.
-/

set_option autoImplicit false

namespace LocalPost.Openapi.Required

open LocalPost.Core LocalPost.Http LocalPost.Openapi.Document LocalPost.Openapi.Signature

/-- What a conversion raises: an exception that the resolver catches, with its text, or another. -/
inductive Raised where
  | caught (text : Str)
  | uncaught
  deriving DecidableEq, Repr

/-- The types whose body is not decoded. -/
inductive Raw where
  | bytes
  | str
  deriving DecidableEq, Repr

/-- The objects of a program, with the status code of an `OpResult`, and what resolvers use:
`_cast_str`, `_list_element_type`, the adapters, `repr` of a string and the text of a
`UnicodeDecodeError`. -/
structure Runtime (P : Parts) where
  V : Type
  none : V
  bytes : Bytes → V
  str : Utf8.Text → V
  list : List V → V
  badRequest : Str → V
  opResult : V → Option Nat
  opResult_none : opResult none = .none
  opResult_bytes : ∀ b, opResult (bytes b) = .none
  opResult_str : ∀ s, opResult (str s) = .none
  opResult_badRequest : ∀ message, opResult (badRequest message) = some 400
  raw : P.T → Option Raw
  castStr : Str → Option P.T → Except Raised V
  listElement : P.T → Option P.T
  adapterDecode : Bytes → Option P.T → Str → Except Raised V
  repr : Str → Str
  decodeError : Bytes → Str

variable {P : Parts} {R : Runtime P}

/-- `inspect.Parameter` with its default value. -/
structure Argument (R : Runtime P) where
  param : Param P
  default : Option R.V
  hasDefault : param.hasDefault = default.isSome

/-- What resolvers read of a request: `_query_args`, the headers, and
`ctx.attrs.get(BODY_CACHE_KEY)`. -/
structure Request where
  query : Dict Str (List Str)
  headers : List (Bytes × Bytes)
  body : Option Bytes

/-- `FromQuery`, `FromHeader` and `FromBody`. -/
inductive Source (R : Runtime P) where
  | query (name : Option Str) (description : Str)
  | header (name : Option Str) (description : Str)
  | body (contentType description : Str)
    (converter : Option (Bytes → Option P.T → Except Raised R.V))

/-! ## The document -/

/-- As the factory that the document has. -/
def Source.factory : Source R → Factory P
  | .query name description => .fromQuery name description
  | .header name description => .fromHeader name description
  | .body contentType description _ => .fromBody contentType description

/-- Whether `update_doc` marks the input as required. -/
def Source.required : Source R → Argument R → Bool
  | .query _ _, arg => !arg.param.isOptional.2
  | .header _ _, arg => !arg.param.isOptional.2
  | .body _ _ _, arg => !arg.param.hasDefault

/-- `update_doc` writes this into the entry it adds. -/
theorem required_updateDoc (source : Source R) (arg : Argument R) {op op' : SpecOp P}
    {registry registry' : P.Registry}
    (h : source.factory.updateDoc arg.param op registry = some (op', registry')) :
    (∃ parameter, (fieldsOf op').parameters = (fieldsOf op).parameters ++ [parameter] ∧
        parameter.required = source.required arg) ∨
      ∃ body, (fieldsOf op').requestBody = some body ∧ body.required = source.required arg := by
  cases source with
  | query name description =>
    obtain ⟨found, -, hfound⟩ := Option.map_eq_some_iff.1 h
    cases hfound
    exact .inl ⟨_, rfl, rfl⟩
  | header name description =>
    obtain ⟨found, -, hfound⟩ := Option.map_eq_some_iff.1 h
    cases hfound
    exact .inl ⟨_, rfl, rfl⟩
  | body contentType description converter =>
    obtain ⟨found, -, hfound⟩ := Option.map_eq_some_iff.1 h
    cases hfound
    exact .inr ⟨_, rfl, rfl⟩

/-! ## The resolvers -/

/-- `_is_optional_param`. -/
def isOptionalParam (arg : Argument R) : Option P.T × Bool × R.V :=
  match arg.default with
  | some dflt => (arg.param.isOptional.1, true, dflt)
  | none => (arg.param.isOptional.1, (arg.param.annotation.bind P.unwrapOptional).isSome, R.none)

/-- The `except` clauses around a conversion: the `BadRequest` for an exception that is caught;
`none` is an exception that is not. -/
def orBadRequest (message : Str) : Except Raised R.V → Option R.V
  | .ok v => some v
  | .error (.caught text) => some (R.badRequest (message ++ text))
  | .error .uncaught => none

/-- `if optional: return default`, and the `BadRequest` behind it. -/
def absentValue (arg : Argument R) (message : Str) : Option R.V :=
  let (_, optional, dflt) := isOptionalParam arg
  if optional then some dflt else some (R.badRequest message)

/-- The resolver of `FromQuery`. -/
def resolveQuery (name : Option Str) (arg : Argument R) (r : Request) : Option R.V :=
  let paramName := orElse name arg.param.name
  let target := (isOptionalParam arg).1
  match Dict.get? paramName r.query with
  | none | some [] => absentValue arg ("Missing required query parameter: ".toList ++ paramName)
  | some (value :: values) =>
    orBadRequest ("Invalid query parameter ".toList ++ R.repr paramName ++ ": ".toList)
      (match target.bind R.listElement with
      | some elem => ((value :: values).mapM fun v => R.castStr v (some elem)).map R.list
      | none => R.castStr value target)

/-- The name of the header, as it stands in the document. -/
def headerName (name : Option Str) (arg : Argument R) : Str :=
  orElse name (arg.param.name.map fun c => if c = '_' then '-' else c)

/-- The resolver of `FromHeader`. Names are ASCII, others are refused when the resolver is made. -/
def resolveHeader (name : Option Str) (arg : Argument R) (r : Request) : Option R.V :=
  let lowered := (headerName name arg).map Char.toLower
  let target := (isOptionalParam arg).1
  match r.headers.find? fun header => encodeAscii lowered = some header.1 with
  | none => absentValue arg ("Missing required header: ".toList ++ lowered)
  | some header =>
    orBadRequest ("Invalid header ".toList ++ R.repr lowered ++ ": ".toList)
      (R.castStr (decodeLatin1 header.2) target)

/-- The converter that `FromBody` uses. -/
def bodyConverter (contentType : Str) (converter : Option (Bytes → Option P.T → Except Raised R.V))
    (target : Option P.T) : Bytes → Option P.T → Except Raised R.V :=
  match converter with
  | some converter => converter
  | none =>
    match target.bind R.raw with
    | some .bytes => fun body _ => .ok (R.bytes body)
    | some .str => fun body _ =>
      match Utf8.decode body with
      | some text => .ok (R.str text)
      | none => .error (.caught (R.decodeError body))
    | none => fun body _ =>
      if body = [] then .error (.caught "empty request body".toList)
      else R.adapterDecode body target contentType

/-- The resolver of `FromBody`. -/
def resolveBody (contentType : Str) (converter : Option (Bytes → Option P.T → Except Raised R.V))
    (arg : Argument R) (r : Request) : Option R.V :=
  orBadRequest "Invalid request body: ".toList
    (bodyConverter contentType converter arg.param.annotation (r.body.getD []) arg.param.annotation)

/-- The resolver. -/
def Source.resolve : Source R → Argument R → Request → Option R.V
  | .query name _, arg, r => resolveQuery name arg r
  | .header name _, arg, r => resolveHeader name arg r
  | .body contentType _ converter, arg, r => resolveBody contentType converter arg r

/-! ## Requests without the input -/

/-- The input is not there; of a body, it is empty. -/
def Source.Absent : Source R → Argument R → Request → Prop
  | .query name _, arg, r => (Dict.get? (orElse name arg.param.name) r.query).getD [] = []
  | .header name _, arg, r =>
    ∀ header ∈ r.headers, encodeAscii ((headerName name arg).map Char.toLower) ≠ some header.1
  | .body _ _ _, _, r => r.body.getD [] = []

/-- The default, and `None` for an optional type without one. -/
def Argument.expected (arg : Argument R) : Option R.V :=
  match arg.default with
  | some dflt => some dflt
  | none => if (arg.param.annotation.bind P.unwrapOptional).isSome then some R.none else none

/-- The resolver gives the parameter this value; an `OpResult` would be returned instead. -/
def Yields (result : Option R.V) (v : Option R.V) : Prop :=
  ∃ x, v = some x ∧ result = some x ∧ R.opResult x = none

/-- The resolver gives an `OpResult` with status 400, which is returned. -/
def Answers400 (result : Option R.V) : Prop := ∃ v, result = some v ∧ R.opResult v = some 400

/-- The document is right about requests without the input. -/
def Agrees (source : Source R) (arg : Argument R) : Prop :=
  ∀ r, source.Absent arg r →
    (source.required arg = false ↔ Yields (source.resolve arg r) arg.expected) ∧
    (source.required arg = true ↔ Answers400 (source.resolve arg r))

/-- The condition. The default of a query or header parameter is not itself an `OpResult`. A body of
an adapter's type has no default; a body as `bytes` or `str` has the empty default; a converter
answers 400 to `b""` when there is no default, and otherwise makes it of it. -/
def Consistent : Source R → Argument R → Prop
  | .query _ _, arg => ∀ dflt, arg.default = some dflt → R.opResult dflt = none
  | .header _ _, arg => ∀ dflt, arg.default = some dflt → R.opResult dflt = none
  | .body _ _ (some converter), arg =>
    match arg.default with
    | none =>
      Answers400 (orBadRequest "Invalid request body: ".toList (converter [] arg.param.annotation))
    | some dflt => converter [] arg.param.annotation = .ok dflt ∧ R.opResult dflt = none
  | .body _ _ none, arg =>
    match arg.param.annotation.bind R.raw with
    | none => arg.default = none
    | some .bytes => arg.default = some (R.bytes [])
    | some .str => arg.default = some (R.str [])

/-! ## Query and header parameters -/

/-- The document and the resolvers ask the same question. -/
theorem isOptionalParam_optional (arg : Argument R) :
    (isOptionalParam arg).2.1 = arg.param.isOptional.2 := by
  have hdefault := arg.hasDefault
  unfold isOptionalParam
  cases hd : arg.default with
  | some dflt =>
    rw [hd] at hdefault
    exact (Param.isOptional_of_hasDefault hdefault).symm
  | none =>
    rw [hd] at hdefault
    unfold Param.isOptional
    cases arg.param.annotation.bind P.unwrapOptional with
    | some inner => rfl
    | none => exact hdefault.symm

/-- An absent argument has the documented outcome exactly if the parameter is optional and its
default is no response. -/
theorem yields_absent_iff (arg : Argument R) (message : Str) :
    Yields (absentValue arg message) arg.expected ↔ (isOptionalParam arg).2.1 = true ∧
      ∀ dflt, arg.default = some dflt → R.opResult dflt = none := by
  unfold absentValue isOptionalParam Argument.expected Yields
  cases hd : arg.default with
  | some dflt => simp
  | none =>
    cases (arg.param.annotation.bind P.unwrapOptional).isSome with
    | true => simp [R.opResult_none]
    | false => simp

/-- An absent argument is answered with 400 exactly if the parameter is not optional. -/
theorem answers400_absent_iff (arg : Argument R) (message : Str)
    (h : ∀ dflt, arg.default = some dflt → R.opResult dflt = none) :
    Answers400 (absentValue arg message) ↔ (isOptionalParam arg).2.1 = false := by
  unfold absentValue isOptionalParam Answers400
  cases hd : arg.default with
  | some dflt => simp [h dflt hd]
  | none =>
    cases (arg.param.annotation.bind P.unwrapOptional).isSome with
    | true => simp [R.opResult_none]
    | false => simp [R.opResult_badRequest]

/-- A query or header parameter is documented as it is resolved, when its default is not an
`OpResult`. -/
theorem absent_iff (arg : Argument R) (message : Str) :
    (((!arg.param.isOptional.2) = false ↔ Yields (absentValue arg message) arg.expected) ∧
      ((!arg.param.isOptional.2) = true ↔ Answers400 (absentValue arg message))) ↔
    ∀ dflt, arg.default = some dflt → R.opResult dflt = none := by
  rw [← isOptionalParam_optional, yields_absent_iff, Bool.not_eq_false', Bool.not_eq_true']
  constructor
  · rintro ⟨hyields, -⟩ dflt hd
    have hoptional : (isOptionalParam arg).2.1 = true := by
      unfold isOptionalParam
      rw [hd]
    exact (hyields.1 hoptional).2 dflt hd
  · intro h
    refine ⟨?_, (answers400_absent_iff arg message h).symm⟩
    exact ⟨fun hoptional => ⟨hoptional, h⟩, fun hoptional => hoptional.1⟩

/-- A query parameter that is not there is absent. -/
theorem resolveQuery_absent {name : Option Str} {arg : Argument R} {r : Request}
    (h : (Dict.get? (orElse name arg.param.name) r.query).getD [] = []) :
    resolveQuery name arg r = absentValue arg
      ("Missing required query parameter: ".toList ++ orElse name arg.param.name) := by
  unfold resolveQuery
  cases hget : Dict.get? (orElse name arg.param.name) r.query with
  | none => simp only [hget]
  | some values =>
    rw [hget, Option.getD_some] at h
    subst h
    simp only [hget]

/-- A header that is not there is absent. -/
theorem resolveHeader_absent {name : Option Str} {arg : Argument R} {r : Request}
    (h : ∀ header ∈ r.headers, encodeAscii ((headerName name arg).map Char.toLower) ≠
      some header.1) :
    resolveHeader name arg r = absentValue arg
      ("Missing required header: ".toList ++ (headerName name arg).map Char.toLower) := by
  have hfind : r.headers.find? (fun header =>
      encodeAscii ((headerName name arg).map Char.toLower) = some header.1) = none := by
    rw [List.find?_eq_none]
    intro header hheader hfound
    exact h header hheader (of_decide_eq_true hfound)
  unfold resolveHeader
  simp only [hfind]

/-! ## Bodies -/

theorem decode_nil : Utf8.decode [] = some [] := Utf8.decode_of_encode (s := []) rfl

/-- A resolver that answers 400 gives the parameter nothing. -/
theorem not_yields_of_answers400 {result v : Option R.V} (h : Answers400 result) :
    ¬Yields result v := by
  rintro ⟨x, -, hx, hplain⟩
  obtain ⟨y, hy, h400⟩ := h
  rw [hx] at hy
  cases hy
  rw [hplain] at h400
  cases h400

/-- A body without a default has to be answered 400. -/
theorem body_without_default (arg : Argument R) (hd : arg.default = none) (result : Option R.V) :
    (((!arg.param.hasDefault) = false ↔ Yields result arg.expected) ∧
      ((!arg.param.hasDefault) = true ↔ Answers400 result)) ↔ Answers400 result := by
  have hdefault : arg.param.hasDefault = false := by rw [arg.hasDefault, hd, Option.isSome_none]
  rw [hdefault]
  constructor
  · intro h
    exact h.2.1 rfl
  · intro h
    refine ⟨⟨fun hfalse => (by cases hfalse), fun hyields => ?_⟩, ⟨fun _ => h, fun _ => rfl⟩⟩
    exact absurd hyields (not_yields_of_answers400 h)

/-- A body with a default has to be made into it. -/
theorem body_with_default (arg : Argument R) {dflt : R.V} (hd : arg.default = some dflt)
    (result : Option R.V) :
    (((!arg.param.hasDefault) = false ↔ Yields result arg.expected) ∧
      ((!arg.param.hasDefault) = true ↔ Answers400 result)) ↔
    result = some dflt ∧ R.opResult dflt = none := by
  have hdefault : arg.param.hasDefault = true := by rw [arg.hasDefault, hd, Option.isSome_some]
  have hyields : Yields result arg.expected ↔ result = some dflt ∧ R.opResult dflt = none := by
    unfold Yields Argument.expected
    rw [hd]
    simp
  rw [hdefault, hyields]
  constructor
  · intro h
    exact h.1.1 rfl
  · intro h
    refine ⟨⟨fun _ => h, fun _ => rfl⟩, ⟨fun htrue => (by cases htrue), fun h400 => ?_⟩⟩
    exact absurd (hyields.2 h) (not_yields_of_answers400 h400)

/-- Only what can be read comes past `_or_bad_request`. -/
theorem orBadRequest_eq_some_iff {message : Str} {result : Except Raised R.V} {v : R.V}
    (hplain : R.opResult v = none) : orBadRequest message result = some v ↔ result = .ok v := by
  cases result with
  | ok x => simp [orBadRequest]
  | error e =>
    cases e with
    | caught text =>
      constructor
      · intro h
        have hv := congrArg (fun x => x.bind R.opResult) h
        simp [orBadRequest, R.opResult_badRequest, hplain] at hv
      · intro h
        cases h
    | uncaught => simp [orBadRequest]

/-- What `FromBody` makes of an empty body. -/
def emptyBody (contentType : Str) (converter : Option (Bytes → Option P.T → Except Raised R.V))
    (arg : Argument R) : Option R.V :=
  orBadRequest "Invalid request body: ".toList
    (bodyConverter contentType converter arg.param.annotation [] arg.param.annotation)

/-- Without a default an empty body is answered 400 exactly when the converter refuses it; `bytes`
and `str` take it. -/
theorem emptyBody_without_default (contentType : Str) (description : Str)
    (converter : Option (Bytes → Option P.T → Except Raised R.V)) {arg : Argument R}
    (hd : arg.default = none) :
    Answers400 (emptyBody contentType converter arg) ↔
      Consistent (.body contentType description converter) arg := by
  unfold emptyBody
  cases converter with
  | some converter => simp [Consistent, bodyConverter, hd]
  | none =>
    unfold Consistent bodyConverter
    cases hraw : arg.param.annotation.bind R.raw with
    | none => simp [hd, orBadRequest, Answers400, R.opResult_badRequest, hraw]
    | some raw =>
      cases raw with
      | bytes => simp [hd, orBadRequest, Answers400, R.opResult_bytes, hraw]
      | str => simp [hd, orBadRequest, Answers400, R.opResult_str, hraw, decode_nil]

/-- With a default an empty body gives the default exactly when the converter makes it of
nothing. -/
theorem emptyBody_with_default (contentType : Str) (description : Str)
    (converter : Option (Bytes → Option P.T → Except Raised R.V)) {arg : Argument R} {dflt : R.V}
    (hd : arg.default = some dflt) :
    emptyBody contentType converter arg = some dflt ∧ R.opResult dflt = none ↔
      Consistent (.body contentType description converter) arg := by
  unfold emptyBody
  cases converter with
  -- a converter of its own gets the empty body
  | some converter =>
    simp only [Consistent, bodyConverter, hd]
    exact and_congr_left fun hplain => orBadRequest_eq_some_iff hplain
  -- without one the empty body is bytes or text, or a request without a body
  | none =>
    unfold Consistent bodyConverter
    cases hraw : arg.param.annotation.bind R.raw with
    | none =>
      simp only [hraw, hd, orBadRequest, if_true]
      constructor
      -- a missing body is answered by 400, which is no default
      · rintro ⟨hresult, hplain⟩
        rw [← Option.some.inj hresult, R.opResult_badRequest] at hplain
        cases hplain
      · intro hnone
        cases hnone
    | some raw =>
      cases raw with
      | bytes =>
        simp only [hraw, hd, orBadRequest, Option.some.injEq]
        constructor
        · rintro ⟨rfl, -⟩
          rfl
        · rintro rfl
          exact ⟨rfl, R.opResult_bytes []⟩
      | str =>
        simp only [hraw, hd, decode_nil, orBadRequest, Option.some.injEq]
        constructor
        · rintro ⟨rfl, -⟩
          rfl
        · rintro rfl
          exact ⟨rfl, R.opResult_str []⟩

/-- For every resolver and parameter: the document marks the input as required when a request
without it is answered 400, and as not required when the parameter then has its default, exactly
under the condition. -/
theorem required_iff (source : Source R) (arg : Argument R) : Agrees source arg ↔
    Consistent source arg := by
  cases source with
  | query name description =>
    constructor
    · intro h
      have habsent : (Source.query (R := R) name description).Absent arg ⟨[], [], none⟩ := rfl
      have hagrees := h _ habsent
      simp only [Source.resolve, resolveQuery_absent habsent] at hagrees
      exact (absent_iff arg _).1 hagrees
    · intro h r habsent
      simp only [Source.resolve, resolveQuery_absent habsent]
      exact (absent_iff arg _).2 h
  | header name description =>
    constructor
    · intro h
      have habsent : (Source.header (R := R) name description).Absent arg ⟨[], [], none⟩ :=
        fun _ hheader => (by cases hheader)
      have hagrees := h _ habsent
      simp only [Source.resolve, resolveHeader_absent habsent] at hagrees
      exact (absent_iff arg _).1 hagrees
    · intro h r habsent
      simp only [Source.resolve, resolveHeader_absent habsent]
      exact (absent_iff arg _).2 h
  | body contentType description converter =>
    -- an empty body gives the same result in every request
    have hsame : Agrees (.body contentType description converter) arg ↔
        ((!arg.param.hasDefault) = false ↔
          Yields (emptyBody contentType converter arg) arg.expected) ∧
        ((!arg.param.hasDefault) = true ↔ Answers400 (emptyBody contentType converter arg)) := by
      constructor
      · intro h
        exact h ⟨[], [], none⟩ rfl
      · intro h r habsent
        have hempty : r.body.getD [] = [] := habsent
        simp only [Source.resolve, resolveBody, hempty]
        exact h
    rw [hsame]
    cases hd : arg.default with
    | none =>
      rw [body_without_default arg hd]
      exact emptyBody_without_default contentType description converter hd
    | some dflt =>
      rw [body_with_default arg hd]
      exact emptyBody_with_default contentType description converter hd

/-- One type, which an adapter decodes. -/
def models : Parts where
  T := Unit
  str := ()
  Response := Unit
  Schema := Unit
  Info := Unit
  Registry := Unit
  isBodyType _ := true
  isCtx _ := false
  isAny _ := false
  unwrapOptional _ := none
  schemaFor _ registry := some ((), registry)
  string := ()
  permissive := ()

/-- The objects are `None` and the `BadRequest`s. -/
def objects : Runtime models where
  V := Option Str
  none := none
  bytes _ := none
  str _ := none
  list _ := none
  badRequest message := some message
  opResult v := v.map fun _ => 400
  opResult_none := rfl
  opResult_bytes _ := rfl
  opResult_str _ := rfl
  opResult_badRequest _ := rfl
  raw _ := none
  castStr _ _ := .ok none
  listElement _ := none
  adapterDecode _ _ _ := .ok none
  repr s := s
  decodeError _ := []

/-- `payload: Model = None`. -/
def optionalBody : Argument objects := ⟨⟨"payload".toList, some (), true⟩, some none, rfl⟩

/-- The document says that the body is not required; an empty one is answered 400. -/
theorem default_body_answers_400 :
    (Source.body (R := objects) "application/json".toList [] none).required optionalBody = false ∧
      (Source.body (R := objects) "application/json".toList [] none).resolve optionalBody
      ⟨[], [], some []⟩ =
        some (some "Invalid request body: empty request body".toList) ∧
      ¬Agrees (.body "application/json".toList [] none) optionalBody := by
  refine ⟨rfl, rfl, fun h => ?_⟩
  obtain ⟨x, -, hx, hplain⟩ := (h ⟨[], [], some []⟩ rfl).1.1 rfl
  cases hx
  cases hplain

end LocalPost.Openapi.Required
