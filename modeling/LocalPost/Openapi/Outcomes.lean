import LocalPost.Openapi.Shapes

/-!
# Documented and emitted responses of a handler

`_run_core` turns what a handler returns into an `OpResult` by looking at the value: an `OpResult`
is sent as it is, an iterator or `EventStream` as a 200, `None` as a 404 or a 200, anything else as
a 200. The document is made from the annotation, where the first member with a status code stands
for all of them and `None` counts only next to a success.

`outcomes_iff` says for which annotations the two agree. They do not for `None | BadRequest[str]`,
whose `None` is an undocumented 200, nor for a union of two plain types, of which the first only is
documented (`undocumented_outcomes`).
-/

set_option autoImplicit false

namespace LocalPost.Openapi.Shapes

open LocalPost.Core LocalPost.Http.Routing

variable {T : Type}

/-! ## The runtime -/

/-- What a handler returns, as far as `_run_core` looks at it: `None`, an instance of an `OpResult`
class, an `EventStream` or `Iterator`, or anything else. -/
inductive Value where
  | none
  | result (cls : ResultClass)
  | stream
  | other
  deriving DecidableEq, Repr

/-- The end of `_run_core`: the class of the `OpResult` that is sent. -/
def runCore (nullIsNotFound : Bool) : Value → ResultClass
  | .result cls => cls
  | .stream => .eventStreamResult
  | .none => if nullIsNotFound then .notFound else .ok
  | .other => .ok

/-- The status that `_write_response` sends, for an event stream or a plain response. -/
def emitted (returns : Option (List (Member T))) (v : Value) : Nat :=
  (runCore (extractResponseShapes returns).2 v).statusCode

/-! ## What annotations mean -/

/-- The types of a program: which `OpResult` classes are below which, what the instances of a plain
type are to `_run_core`, and whether the schema of one type accepts the values of another. -/
structure Types (T : Type) where
  sub : ResultClass → ResultClass → Prop
  sub_refl : ∀ cls, sub cls cls
  inhabits : T → Value → Prop
  covers : T → T → Prop
  covers_refl : ∀ t, covers t t

/-- The value conforms to the member of the annotation. An `Iterable` need not be an iterator. -/
def Types.Conforms (types : Types T) : Member T → Value → Prop
  | .none, v => v = .none
  | .sse _, v => v = .stream ∨ v = .other
  | .result cls _, v => ∃ sub, types.sub sub cls ∧ v = .result sub
  | .plain t, v => types.inhabits t v

/-- The body type of a member. -/
def Member.bodyType (m : Member T) : Option T := m.shape.bind ResponseShape.bodyType

/-- Every value has a documented status, and the schema for the status covers the body type of every
member. -/
structure Documented (types : Types T) (members : List (Member T)) : Prop where
  statuses : ∀ m ∈ members, ∀ v, types.Conforms m v →
    ∃ shape, find (emitted (some members) v) (extractResponseShapes (some members)).1 = some shape
  bodies : ∀ m ∈ members, ∀ code t, m.code = some code → m.bodyType = some t →
    ∃ shape u, find code (extractResponseShapes (some members)).1 = some shape ∧
      shape.bodyType = some u ∧ types.covers u t

/-- The codes of the members, and 404 when `None` stands for it. -/
def Expected (members : List (Member T)) (code : Nat) : Prop :=
  code ∈ memberCodes members ∨ nullIsNotFound members = true ∧ code = 404

/-- The condition: `None` is alone, next to a success without a 404, or next to a 200; the classes
below those of the annotation, and the `OpResult` instances of its plain types, have expected codes;
and the first member with a code has a body type that covers those of the others. -/
structure Agrees (types : Types T) (members : List (Member T)) : Prop where
  null : .none ∈ members →
    onlyNone members = true ∨ nullIsNotFound members = true ∨ 200 ∈ memberCodes members
  results : ∀ cls arg, .result cls arg ∈ members → ∀ sub, types.sub sub cls →
    Expected members sub.statusCode
  plain : ∀ t, .plain t ∈ members → ∀ cls, types.inhabits t (.result cls) →
    Expected members cls.statusCode
  bodies : ∀ m ∈ members, ∀ code t, m.code = some code → m.bodyType = some t →
    ∀ first, members.find? (fun m => m.code = some code) = some first →
      ∃ u, first.bodyType = some u ∧ types.covers u t

/-! ## Codes of an annotation -/

variable {types : Types T} {members : List (Member T)}

theorem mem_memberCodes {m : Member T} (hm : m ∈ members) {code : Nat}
    (hcode : m.code = some code) : code ∈ memberCodes members := List.mem_filterMap.2 ⟨m, hm, hcode⟩

/-- A code is documented when it is expected, and 200 when there is only `None`. -/
theorem documented_iff (code : Nat) :
    (∃ shape, find code (extractResponseShapes (some members)).1 = some shape) ↔
      Expected members code ∨ onlyNone members = true ∧ code = 200 := by
  rw [← Option.isSome_iff_exists, find_extract, Option.isSome_or, Bool.or_eq_true, find_isSome_iff,
    map_memberShapes]
  unfold Expected
  rw [or_assoc]
  refine or_congr_right ?_
  by_cases hnull : nullIsNotFound members = true ∧ code = 404
  · simp [hnull]
  · rw [if_neg hnull]
    by_cases honly : onlyNone members = true ∧ code = 200
    · simp [honly]
    · simp [hnull, honly]

/-- The shape of a member's code is that of the first member with it. -/
theorem find_extract_of_member {m : Member T} (hm : m ∈ members) {code : Nat}
    (hcode : m.code = some code) :
    ∃ first, members.find? (fun m => m.code = some code) = some first ∧
      find code (extractResponseShapes (some members)).1 = first.shape := by
  have hsome : (members.find? fun m => m.code = some code).isSome = true := by
    rw [List.find?_isSome]
    exact ⟨m, hm, decide_eq_true hcode⟩
  obtain ⟨first, hfirst⟩ := Option.isSome_iff_exists.1 hsome
  refine ⟨first, hfirst, ?_⟩
  rw [find_extract, find_memberShapes, hfirst, Option.bind_some]
  have hfirstCode : first.code = some code := by simpa using List.find?_some hfirst
  have hmap := first.map_shape
  rw [hfirstCode] at hmap
  cases hshape : first.shape with
  | none =>
    rw [hshape] at hmap
    cases hmap
  | some shape => rfl

/-- A 200 that some member gives is documented. -/
theorem documented_200 {m : Member T} (hm : m ∈ members) (hcode : m.code = some 200) :
    ∃ shape, find 200 (extractResponseShapes (some members)).1 = some shape :=
  (documented_iff 200).2 (.inl (.inl (mem_memberCodes hm hcode)))

/-- What `None` gives is documented when the annotation has a 200, or `None` stands for a 404. -/
theorem documented_none :
    (∃ shape, find (emitted (some members) .none) (extractResponseShapes (some members)).1 =
      some shape) ↔
      onlyNone members = true ∨ nullIsNotFound members = true ∨ 200 ∈ memberCodes members := by
  rw [documented_iff]
  unfold emitted runCore Expected
  rw [snd_extract]
  cases hnull : nullIsNotFound members with
  | true => simp [ResultClass.notFound, ResultClass.statusCode]
  | false =>
    simp only [Bool.false_eq_true, if_false, false_and, or_false, false_or, ResultClass.ok,
      ResultClass.statusCode, and_true]
    exact or_comm

/-- An `OpResult` is not there when there is only `None`. -/
theorem expected_of_documented {m : Member T} (hm : m ∈ members) (hsome : m ≠ .none) {code : Nat}
    (h : ∃ shape, find code (extractResponseShapes (some members)).1 = some shape) :
    Expected members code := by
  rcases (documented_iff code).1 h with hexpected | ⟨honly, -⟩
  · exact hexpected
  · have hnone := List.all_eq_true.1 honly m hm
    rw [Option.isNone_iff_eq_none, Member.code_eq_none_iff] at hnone
    exact absurd hnone hsome

/-! ## The two sides -/

/-- The statuses agree exactly under the conditions on `None`, on subclasses and on plain types. -/
theorem statuses_iff : (∀ m ∈ members, ∀ v, types.Conforms m v →
      ∃ shape, find (emitted (some members) v)
        (extractResponseShapes (some members)).1 = some shape) ↔
    (.none ∈ members →
      onlyNone members = true ∨ nullIsNotFound members = true ∨ 200 ∈ memberCodes members) ∧
    (∀ cls arg, .result cls arg ∈ members → ∀ sub, types.sub sub cls →
      Expected members sub.statusCode) ∧
    (∀ t, .plain t ∈ members → ∀ cls, types.inhabits t (.result cls) →
      Expected members cls.statusCode) := by
  constructor
  -- each kind of member has a value of its own that must be documented
  · intro h
    refine ⟨fun hm => ?_, fun cls arg hm sub hsub => ?_, fun t hm cls hcls => ?_⟩
    · exact documented_none.1 (h .none hm .none rfl)
    · exact expected_of_documented hm (by simp)
        (h (.result cls arg) hm (.result sub) ⟨sub, hsub, rfl⟩)
    · exact expected_of_documented hm (by simp) (h (.plain t) hm (.result cls) hcls)
  -- and each value conforms to a member of one of the four kinds
  · rintro ⟨hnull, hresults, hplain⟩ m hm v hv
    cases m with
    | none =>
      rw [show v = .none from hv]
      exact documented_none.2 (hnull hm)
    | sse payload =>
      rcases hv with rfl | rfl
      · exact documented_200 hm rfl
      · exact documented_200 hm rfl
    | result cls arg =>
      obtain ⟨sub, hsub, rfl⟩ := hv
      exact (documented_iff _).2 (.inl (hresults cls arg hm sub hsub))
    | plain t =>
      cases v with
      | none => exact documented_none.2 (.inr (.inr (mem_memberCodes hm rfl)))
      | result cls => exact (documented_iff _).2 (.inl (hplain t hm cls hv))
      | stream => exact documented_200 hm rfl
      | other => exact documented_200 hm rfl

/-- Every outcome of a handler with this annotation is documented exactly when the annotation meets
the condition. -/
theorem outcomes_iff (types : Types T) (members : List (Member T)) :
    Documented types members ↔ Agrees types members := by
  constructor
  · intro h
    obtain ⟨hnull, hresults, hplain⟩ := statuses_iff.1 h.statuses
    refine ⟨hnull, hresults, hplain, fun m hm code t hcode ht first hfirst => ?_⟩
    obtain ⟨shape, u, hshape, hu, hcovers⟩ := h.bodies m hm code t hcode ht
    obtain ⟨first', hfirst', hfind⟩ := find_extract_of_member hm hcode
    rw [hfirst] at hfirst'
    cases hfirst'
    refine ⟨u, ?_, hcovers⟩
    unfold Member.bodyType
    rw [← hfind, hshape]
    exact hu
  · intro h
    refine ⟨statuses_iff.2 ⟨h.null, h.results, h.plain⟩, fun m hm code t hcode ht => ?_⟩
    obtain ⟨first, hfirst, hfind⟩ := find_extract_of_member hm hcode
    obtain ⟨u, hu, hcovers⟩ := h.bodies m hm code t hcode ht first hfirst
    obtain ⟨shape, hshape, hbody⟩ := Option.bind_eq_some_iff.1 hu
    exact ⟨shape, u, hfind.trans hshape, hbody, hcovers⟩

/-- Two plain types that have nothing to do with each other. -/
def twoTypes : Types Bool where
  sub cls cls' := cls = cls'
  sub_refl _ := rfl
  inhabits _ v := v = .other
  covers t u := t = u
  covers_refl _ := rfl

/-- `None | BadRequest[str]`, where `None` gives a 200 that is not documented, and a union of two
plain types, of which the second has no schema. -/
theorem undocumented_outcomes :
    ¬Documented twoTypes [.none, .result .badRequest (some true)] ∧
      ¬Documented twoTypes [.plain false, .plain true] := by
  constructor
  · intro h
    obtain ⟨shape, hshape⟩ := h.statuses .none List.mem_cons_self .none rfl
    cases hshape
  · intro h
    obtain ⟨shape, u, hshape, hu, hcovers⟩ :=
      h.bodies (.plain true) (List.mem_cons_of_mem _ List.mem_cons_self) 200 true rfl rfl
    cases hshape
    cases hu
    cases hcovers

end LocalPost.Openapi.Shapes
