import LocalPost.Openapi.Signature

/-!
# Response shapes

`extract_response_shapes` reads a return annotation as the list of the responses it can give: one
shape for each status code, that of the first member of the union with this code. `None` next to a
success stands for a 404, and an annotation that has no other response for an empty 200.
`build_responses` turns the shapes into entries of the document.

`find_extract` and `entry_buildResponses` say what the document has for a code.
-/

set_option autoImplicit false

namespace LocalPost.Openapi.Shapes

open LocalPost.Core LocalPost.Http.Routing LocalPost.Openapi.Document LocalPost.Openapi.Signature

variable {T : Type}

/-! ## Annotations -/

/-- `OpResult` and its subclasses: `NoContent`, `EventStreamResult` with the classes below it, and
the others, those of the user included, with their `_status_code` and `_description`. -/
inductive ResultClass where
  | opResult
  | noContent
  | eventStream (statusCode : Nat) (description : Str)
  | coded (statusCode : Nat) (description : Str)
  deriving DecidableEq, Repr

namespace ResultClass

/-- `_status_code`. -/
def statusCode : ResultClass → Nat
  | opResult => 200
  | noContent => 204
  | eventStream statusCode _ => statusCode
  | coded statusCode _ => statusCode

/-- `_description`. -/
def description : ResultClass → Str
  | opResult => "Successful response".toList
  | noContent => "No Content".toList
  | eventStream _ description => description
  | coded _ description => description

/-- `Ok`. -/
def ok : ResultClass := coded 200 "Successful response".toList

/-- `BadRequest`. -/
def badRequest : ResultClass := coded 400 "Bad Request".toList

/-- `Unauthorized`. -/
def unauthorized : ResultClass := coded 401 "Unauthorized".toList

/-- `NotFound`. -/
def notFound : ResultClass := coded 404 "Not Found".toList

/-- `EventStreamResult`. -/
def eventStreamResult : ResultClass := eventStream 200 "Successful response".toList

end ResultClass

/-- A member of a return annotation: `type(None)`, one of the iterables of `_sse_payload_type` with
its payload type, an `OpResult` class with its argument, or any other type. -/
inductive Member (T : Type) where
  | none
  | sse (payload : Option T)
  | result (cls : ResultClass) (arg : Option T)
  | plain (t : T)
  deriving DecidableEq, Repr

/-- `ResponseShape`. -/
structure ResponseShape (T : Type) where
  statusCode : Nat
  description : Str
  bodyType : Option T
  contentType : Str
  deriving DecidableEq, Repr

/-- The shape without a body for this class. -/
def ResultClass.bare (cls : ResultClass) : ResponseShape T :=
  ⟨cls.statusCode, cls.description, .none, "application/json".toList⟩

namespace Member

/-- What the loop of `extract_response_shapes` makes of a member. `OpResult` is not generic, and of
`NoContent` an argument is not looked at. -/
def shape : Member T → Option (ResponseShape T)
  | none => .none
  | sse payload => some ⟨200, "Successful response".toList, payload, "text/event-stream".toList⟩
  | result (.eventStream code description) arg =>
    some ⟨code, description, arg, "text/event-stream".toList⟩
  | result .opResult _ => some (ResultClass.bare .opResult)
  | result .noContent _ => some (ResultClass.bare .noContent)
  | result cls arg => some ⟨cls.statusCode, cls.description, arg, "application/json".toList⟩
  | plain t => some ⟨200, "Successful response".toList, some t, "application/json".toList⟩

/-- Whether it sets `has_success`. -/
def success : Member T → Bool
  | none => false
  | result (.eventStream _ _) _ => true
  | result cls _ => cls.statusCode < 400
  | _ => true

/-- The status code of the shape. -/
def code : Member T → Option Nat
  | none => .none
  | result cls _ => some cls.statusCode
  | _ => some 200

theorem map_shape (m : Member T) : m.shape.map ResponseShape.statusCode = m.code := by
  cases m with
  | none => rfl
  | sse payload => rfl
  | plain t => rfl
  | result cls arg => cases cls <;> rfl

theorem code_eq_none_iff {m : Member T} : m.code = .none ↔ m = none := by
  cases m <;> simp [code]

end Member

/-! ## `extract_response_shapes` -/

/-- The variables of the loop. -/
structure Scan (T : Type) where
  shapes : List (ResponseShape T)
  seenCodes : List Nat
  hasSuccess : Bool
  hasNone : Bool

namespace Scan

def start : Scan T := ⟨[], [], false, false⟩

/-- The body of the loop. -/
def step (s : Scan T) (member : Member T) : Scan T :=
  match member.shape with
  | none => { s with hasNone := true }
  | some shape =>
    let hasSuccess := s.hasSuccess || member.success
    if shape.statusCode ∈ s.seenCodes then { s with hasSuccess := hasSuccess }
    else ⟨s.shapes ++ [shape], s.seenCodes ++ [shape.statusCode], hasSuccess, s.hasNone⟩

/-- The loop. -/
def scan (members : List (Member T)) : Scan T := members.foldl step start

end Scan

/-- `extract_response_shapes`: the shapes and `null_is_not_found`. Without an annotation there are
no members. -/
def extractResponseShapes : Option (List (Member T)) → List (ResponseShape T) × Bool
  | none => ([ResultClass.bare .ok], false)
  | some members =>
    let s := Scan.scan members
    let nullIsNotFound := s.hasNone && s.hasSuccess && !s.seenCodes.contains 404
    let shapes := if nullIsNotFound then s.shapes ++ [ResultClass.bare .notFound] else s.shapes
    (if !s.hasSuccess && shapes.isEmpty then
      shapes ++ [ResultClass.bare .ok] else shapes, nullIsNotFound)

/-! ## `build_responses` -/

/-- `spec.Response`, with its one media type. -/
structure Response (Schema : Type) where
  description : Str
  content : Option (Str × Schema)
  deriving DecidableEq, Repr

/-- The signatures with these responses. -/
abbrev Responding (P : Parts) : Parts := { P with Response := Response P.Schema }

variable {P : Parts}

/-- The entry for one shape. -/
def buildResponse (shape : ResponseShape P.T) (registry : P.Registry) :
    Option (Response P.Schema × P.Registry) :=
  match shape.bodyType with
  | none => some (⟨shape.description, none⟩, registry)
  | some t => (P.schemaFor t registry).map fun found =>
    (⟨shape.description, some (shape.contentType, found.1)⟩, found.2)

/-- `str(code)`. -/
def str (code : Nat) : Str := Nat.toDigits 10 code

/-- `build_responses`. -/
def buildResponses (shapes : List (ResponseShape P.T)) (registry : P.Registry) :
    Option (Dict Str (Response P.Schema) × P.Registry) :=
  shapes.foldlM (fun responses shape => (buildResponse shape responses.2).map fun built =>
    (Dict.set (str shape.statusCode) built.1 responses.1, built.2)) ([], registry)

theorem str_injective {a b : Nat} (h : str a = str b) : a = b := by
  rw [← Nat.ofDigitChars_ten_toDigits (n := a), ← Nat.ofDigitChars_ten_toDigits (n := b)]
  exact congrArg (fun l => Nat.ofDigitChars 10 l 0) h

/-! ## The shape of a code -/

/-- The shape for this code. -/
def find (code : Nat) (shapes : List (ResponseShape T)) : Option (ResponseShape T) :=
  shapes.find? fun shape => shape.statusCode = code

theorem find_append (code : Nat) (l l' : List (ResponseShape T)) :
    find code (l ++ l') = (find code l).or (find code l') := List.find?_append

theorem find_cons (code : Nat) (shape : ResponseShape T) (l : List (ResponseShape T)) :
    find code (shape :: l) = if shape.statusCode = code then some shape else find code l := by
  unfold find
  rw [List.find?_cons]
  split <;> rename_i h
  · rw [if_pos (of_decide_eq_true h)]
  · rw [if_neg (of_decide_eq_false h)]

theorem find_isSome_iff {code : Nat} {l : List (ResponseShape T)} :
    (find code l).isSome = true ↔ code ∈ l.map ResponseShape.statusCode := by
  unfold find
  rw [List.find?_isSome, List.mem_map]
  constructor
  · rintro ⟨shape, hmem, hcode⟩
    exact ⟨shape, hmem, of_decide_eq_true hcode⟩
  · rintro ⟨shape, hmem, hcode⟩
    exact ⟨shape, hmem, decide_eq_true hcode⟩

theorem find_eq_none_iff {code : Nat} {l : List (ResponseShape T)} :
    find code l = none ↔ code ∉ l.map ResponseShape.statusCode := by
  rw [← find_isSome_iff, Option.not_isSome_iff_eq_none]

/-- The shapes of the members, several for one code included. -/
def memberShapes (members : List (Member T)) : List (ResponseShape T) :=
  members.filterMap Member.shape

/-- The codes of the members. -/
def memberCodes (members : List (Member T)) : List Nat := members.filterMap Member.code

theorem map_memberShapes (members : List (Member T)) :
    (memberShapes members).map ResponseShape.statusCode = memberCodes members := by
  unfold memberShapes memberCodes
  rw [List.map_filterMap]
  exact congrArg (fun f => members.filterMap f) (funext Member.map_shape)

/-- The shape for a code is that of the first member with the code. -/
theorem find_memberShapes (members : List (Member T)) (code : Nat) :
    find code (memberShapes members) =
      (members.find? fun m => m.code = some code).bind Member.shape := by
  induction members with
  | nil => rfl
  | cons m members ih =>
    unfold memberShapes at ih ⊢
    rw [List.filterMap_cons, List.find?_cons]
    have hcode := m.map_shape
    cases hshape : m.shape with
    | none =>
      rw [hshape, Option.map_none] at hcode
      rw [← hcode]
      exact ih
    | some shape =>
      rw [hshape, Option.map_some] at hcode
      rw [← hcode]
      dsimp only
      rw [find_cons]
      by_cases heq : shape.statusCode = code
      · rw [if_pos heq, heq]
        simp [hshape]
      · rw [if_neg heq, ih]
        simp [heq]

namespace Scan

/-- What the loop keeps: a code is seen when it has a shape, and it has one shape only. -/
structure Ok (s : Scan T) : Prop where
  seen : s.seenCodes = s.shapes.map ResponseShape.statusCode
  nodup : s.seenCodes.Nodup

theorem Ok.start : (start : Scan T).Ok := ⟨rfl, List.nodup_nil⟩

/-- Every member keeps the scan in order. -/
theorem Ok.step {s : Scan T} (h : s.Ok) (member : Member T) : (s.step member).Ok := by
  unfold Scan.step
  split
  · exact ⟨h.seen, h.nodup⟩
  · dsimp only
    split
    · exact ⟨h.seen, h.nodup⟩
    · rename_i shape _ hnew
      refine ⟨?_, List.nodup_append.2 ⟨h.nodup, List.nodup_singleton _, ?_⟩⟩
      · rw [List.map_append, h.seen]
        rfl
      · intro a ha b hb heq
        rw [List.mem_singleton.1 hb] at heq
        exact hnew (heq ▸ ha)

/-- One member: its shape is taken when its code is new. -/
theorem Ok.find_step {s : Scan T} (h : s.Ok) (member : Member T) (code : Nat) :
    find code (s.step member).shapes = (find code s.shapes).or
      (find code (memberShapes [member])) := by
  unfold Scan.step memberShapes
  cases hshape : member.shape with
  | none => simp [hshape, find]
  | some shape =>
    have hone : [member].filterMap Member.shape = [shape] := by simp [hshape]
    rw [hone]
    dsimp only
    split
    · rename_i hseen
      rw [find_cons]
      split
      · rename_i hcode
        have hsome : (find code s.shapes).isSome = true := by
          rw [find_isSome_iff, ← h.seen, ← hcode]
          exact hseen
        obtain ⟨found, hfound⟩ := Option.isSome_iff_exists.1 hsome
        rw [hfound]
        rfl
      · exact (Option.or_none).symm
    · exact find_append code s.shapes [shape]

/-- The loop from any point. -/
theorem Ok.foldl {s : Scan T} (h : s.Ok) (members : List (Member T)) :
    (members.foldl Scan.step s).Ok ∧
      (∀ code, find code (members.foldl Scan.step s).shapes =
        (find code s.shapes).or (find code (memberShapes members))) ∧
      (members.foldl Scan.step s).hasSuccess = (s.hasSuccess || members.any Member.success) ∧
      (members.foldl Scan.step s).hasNone = (s.hasNone || members.any fun m => m.code.isNone) := by
  induction members generalizing s with
  | nil =>
    refine ⟨h, fun code => ?_, ?_, ?_⟩
    · exact (Option.or_none).symm
    · exact (Bool.or_false _).symm
    · exact (Bool.or_false _).symm
  | cons member members ih =>
    obtain ⟨hok, hfind, hsuccess, hnone⟩ := ih (h.step member)
    refine ⟨hok, fun code => ?_, ?_, ?_⟩
    -- the shape of the member stands before those of the others
    · have hsplit : memberShapes (member :: members) = memberShapes [member] ++
          memberShapes members := by
        unfold memberShapes
        rw [← List.filterMap_append, List.singleton_append]
      rw [List.foldl_cons, hfind code, h.find_step member code,
        Option.or_assoc, hsplit, find_append]
    -- a flag that is set stays set: one case for each kind of member
    · rw [List.foldl_cons, hsuccess, List.any_cons, ← Bool.or_assoc]
      congr 1
      unfold Scan.step
      cases member with
      | none => simp [Member.shape, Member.success]
      | sse payload => simp only [Member.shape]; split <;> rfl
      | plain t => simp only [Member.shape]; split <;> rfl
      | result cls arg => cases cls <;> (simp only [Member.shape]; split <;> rfl)
    · rw [List.foldl_cons, hnone, List.any_cons, ← Bool.or_assoc]
      congr 1
      unfold Scan.step
      rw [← Member.map_shape]
      cases member.shape with
      | none => simp
      | some shape =>
        dsimp only
        split <;> simp

theorem ok_scan (members : List (Member T)) : (scan members).Ok := (Ok.start.foldl members).1

theorem find_scan (members : List (Member T)) (code : Nat) :
    find code (scan members).shapes = find code (memberShapes members) :=
  (Ok.start.foldl members).2.1 code

theorem hasSuccess_scan (members : List (Member T)) :
    (scan members).hasSuccess = members.any Member.success := (Ok.start.foldl members).2.2.1

theorem hasNone_scan (members : List (Member T)) :
    (scan members).hasNone = members.any fun m => m.code.isNone := (Ok.start.foldl members).2.2.2

theorem mem_seenCodes (members : List (Member T)) (code : Nat) :
    code ∈ (scan members).seenCodes ↔ code ∈ memberCodes members := by
  rw [(ok_scan members).seen, ← find_isSome_iff, find_scan, find_isSome_iff, map_memberShapes]

end Scan

/-! ## The shapes of an annotation -/

/-- `null_is_not_found`: `None` next to a success, and no 404 of its own. -/
def nullIsNotFound (members : List (Member T)) : Bool :=
  (members.any fun m => m.code.isNone) && members.any Member.success &&
    !(memberCodes members).contains 404

theorem nullIsNotFound_iff {members : List (Member T)} :
    nullIsNotFound members = true ↔
      (members.any fun m => m.code.isNone) = true ∧ members.any Member.success = true ∧
        404 ∉ memberCodes members := by
  simp only [nullIsNotFound, Bool.and_eq_true, Bool.not_eq_true', List.contains_eq_mem,
    decide_eq_false_iff_not, and_assoc]

/-- There is nothing but `None`. -/
def onlyNone (members : List (Member T)) : Bool := members.all fun m => m.code.isNone

theorem onlyNone_iff {members : List (Member T)} : onlyNone members = true ↔
    memberCodes members = [] := by
  unfold onlyNone memberCodes
  rw [List.all_eq_true, List.filterMap_eq_nil_iff]
  constructor
  · intro h m hm
    exact Option.isNone_iff_eq_none.1 (h m hm)
  · intro h m hm
    exact Option.isNone_iff_eq_none.2 (h m hm)

theorem snd_extract (members : List (Member T)) :
    (extractResponseShapes (some members)).2 = nullIsNotFound members := by
  have hseen : (Scan.scan members).seenCodes.contains 404 = (memberCodes members).contains 404 := by
    rw [Bool.eq_iff_iff, List.contains_iff_mem, List.contains_iff_mem]
    exact Scan.mem_seenCodes members 404
  simp only [extractResponseShapes, nullIsNotFound, Scan.hasNone_scan, Scan.hasSuccess_scan, hseen]

/-- A success has a shape. -/
theorem not_onlyNone_of_success {members : List (Member T)}
    (h : members.any Member.success = true) : onlyNone members = false := by
  obtain ⟨m, hm, hsuccess⟩ := List.any_eq_true.1 h
  rw [Bool.eq_false_iff]
  intro hall
  have hnone := List.all_eq_true.1 hall m hm
  rw [Option.isNone_iff_eq_none, Member.code_eq_none_iff] at hnone
  rw [hnone] at hsuccess
  cases hsuccess

/-- No shape is found exactly if there is only `None`. -/
theorem isEmpty_scan (members : List (Member T)) :
    (Scan.scan members).shapes.isEmpty = onlyNone members := by
  have hcodes : ∀ code, code ∈ (Scan.scan members).shapes.map ResponseShape.statusCode ↔
      code ∈ memberCodes members := by
    intro code
    rw [← (Scan.ok_scan members).seen, Scan.mem_seenCodes]
  rw [Bool.eq_iff_iff, List.isEmpty_iff, onlyNone_iff]
  constructor
  · intro h
    rw [List.eq_nil_iff_forall_not_mem]
    intro code hcode
    rw [← hcodes, h] at hcode
    cases hcode
  · intro h
    rw [← List.map_eq_nil_iff (f := ResponseShape.statusCode), List.eq_nil_iff_forall_not_mem]
    intro code hcode
    rw [hcodes, h] at hcode
    cases hcode

/-- The shapes of an annotation: those of the scan, and one more for `None`. -/
theorem fst_extract (members : List (Member T)) :
    (extractResponseShapes (some members)).1 = (Scan.scan members).shapes ++
      (if nullIsNotFound members then [ResultClass.bare .notFound]
       else if onlyNone members then [ResultClass.bare .ok] else []) := by
  have hnull : ((Scan.scan members).hasNone && (Scan.scan members).hasSuccess &&
      !(Scan.scan members).seenCodes.contains 404) = nullIsNotFound members := snd_extract members
  simp only [extractResponseShapes, hnull]
  cases hflag : nullIsNotFound members with
  -- `None` beside a success is a 404, and nothing else is added
  | true =>
    simp
  | false =>
    have hempty := isEmpty_scan members
    rw [Scan.hasSuccess_scan]
    cases honly : onlyNone members with
    -- other members have shapes already
    | false =>
      rw [honly] at hempty
      simp [hempty]
    -- `None` alone is a 200 without a body
    | true =>
      rw [honly] at hempty
      have hsuccess : members.any Member.success = false := by
        rw [Bool.eq_false_iff]
        intro h
        rw [not_onlyNone_of_success h] at honly
        cases honly
      simp [hempty, hsuccess]

/-- What the document has for a code: the shape of the first member with the code; 404 for `None`
next to a success; 200 for `None` alone. -/
theorem find_extract (members : List (Member T)) (code : Nat) :
    find code (extractResponseShapes (some members)).1 =
      (find code (memberShapes members)).or
        (if nullIsNotFound members ∧ code = 404 then some (ResultClass.bare .notFound)
         else if onlyNone members ∧ code = 200 then some (ResultClass.bare .ok) else none) := by
  rw [fst_extract, find_append, Scan.find_scan]
  congr 1
  cases hflag : nullIsNotFound members with
  | true =>
    have hsuccess : members.any Member.success = true := (nullIsNotFound_iff.1 hflag).2.1
    simp only [not_onlyNone_of_success hsuccess, Bool.false_eq_true, false_and, true_and, if_false,
      if_true, find_cons]
    exact if_congr eq_comm rfl rfl
  | false =>
    cases honly : onlyNone members with
    | true =>
      simp only [Bool.false_eq_true, false_and, true_and, if_false, if_true, find_cons]
      exact if_congr eq_comm rfl rfl
    | false =>
      simp only [Bool.false_eq_true, false_and, if_false]
      rfl

/-- `None` next to a success is documented as a 404. -/
theorem find_extract_null {members : List (Member T)} (h : nullIsNotFound members = true) :
    find 404 (extractResponseShapes (some members)).1 = some (ResultClass.bare .notFound) := by
  have hnone : find 404 (memberShapes members) = none := by
    rw [find_eq_none_iff, map_memberShapes]
    exact (nullIsNotFound_iff.1 h).2.2
  rw [find_extract, hnone, h]
  rfl

/-- `None` alone is documented as an empty 200. -/
theorem find_extract_onlyNone {members : List (Member T)} (h : onlyNone members = true) :
    find 200 (extractResponseShapes (some members)).1 = some (ResultClass.bare .ok) := by
  have hnone : find 200 (memberShapes members) = none := by
    rw [find_eq_none_iff, map_memberShapes, onlyNone_iff.1 h]
    exact List.not_mem_nil
  have hnull : nullIsNotFound members = false := by
    rw [Bool.eq_false_iff]
    intro hnull
    rw [not_onlyNone_of_success (nullIsNotFound_iff.1 hnull).2.1] at h
    cases h
  rw [find_extract, hnone, hnull, h]
  rfl

/-- A code of the document comes from a member or from one of the two rules for `None`. -/
theorem find_extract_cases {members : List (Member T)} {code : Nat}
    (h : code ∈ (extractResponseShapes (some members)).1.map ResponseShape.statusCode) :
    (∃ shape, find code (memberShapes members) = some shape) ∨
      (nullIsNotFound members = true ∧ code = 404) ∨ (onlyNone members = true ∧ code = 200) := by
  rw [← find_isSome_iff, find_extract, Option.isSome_or, Bool.or_eq_true] at h
  rcases h with h | h
  · exact .inl (Option.isSome_iff_exists.1 h)
  · right
    split at h
    · rename_i hnull
      exact .inl hnull
    · split at h
      · rename_i honly
        exact .inr honly
      · cases h

/-- Every code has one shape only. -/
theorem nodup_extract (members : List (Member T)) :
    ((extractResponseShapes (some members)).1.map ResponseShape.statusCode).Nodup := by
  have hscan := (Scan.ok_scan members).nodup
  rw [(Scan.ok_scan members).seen] at hscan
  rw [fst_extract, List.map_append]
  split
  · rename_i hflag
    refine List.nodup_append.2 ⟨hscan, List.nodup_singleton _, fun a ha b hb heq => ?_⟩
    have hcode : a = 404 := heq.trans (List.mem_singleton.1 hb)
    rw [← (Scan.ok_scan members).seen, Scan.mem_seenCodes, hcode] at ha
    exact (nullIsNotFound_iff.1 hflag).2.2 ha
  · split
    · rename_i honly
      refine List.nodup_append.2 ⟨hscan, List.nodup_singleton _, fun a ha _ _ _ => ?_⟩
      rw [← (Scan.ok_scan members).seen, Scan.mem_seenCodes, onlyNone_iff.1 honly] at ha
      cases ha
    · rw [List.map_nil, List.append_nil]
      exact hscan

/-! ## The entries of the document -/

/-- The entry is that of the shape. -/
def Documents (shape : ResponseShape P.T) (response : Response P.Schema) : Prop :=
  ∃ registry registry', buildResponse shape registry = some (response, registry')

/-- `build_responses` from any entries: every shape gets its entry, the others stay. -/
theorem entry_foldlM {shapes : List (ResponseShape P.T)}
    (hnodup : (shapes.map ResponseShape.statusCode).Nodup) {start : Dict Str (Response P.Schema)}
    {registry : P.Registry} {built : Dict Str (Response P.Schema) × P.Registry}
    (h : shapes.foldlM (fun responses shape => (buildResponse shape responses.2).map fun built =>
      (Dict.set (str shape.statusCode) built.1 responses.1, built.2))
        (start, registry) = some built) :
    (∀ code, find code shapes = none → Dict.get? (str code) built.1 = Dict.get? (str code) start) ∧
      (∀ code shape, find code shapes = some shape →
        ∃ response, Dict.get? (str code) built.1 = some response ∧ Documents shape response) ∧
      ((Dict.keys start).Nodup → (Dict.keys built.1).Nodup) ∧
      ∀ key, key ∈ Dict.keys built.1 ↔
        key ∈ Dict.keys start ∨ ∃ code ∈ shapes.map ResponseShape.statusCode, key = str code := by
  induction shapes generalizing start registry with
  | nil =>
    cases h
    refine ⟨fun code _ => rfl, fun code shape hfind => ?_, fun h => h, fun key => ?_⟩
    · cases hfind
    · simp
  | cons shape shapes ih =>
    rw [List.foldlM_cons] at h
    obtain ⟨⟨next, registry'⟩, hfirst, hrest⟩ := Option.bind_eq_some_iff.1 h
    obtain ⟨⟨response, registry''⟩, hbuilt, hset⟩ := Option.map_eq_some_iff.1 hfirst
    cases hset
    obtain ⟨hnot, hnodup'⟩ := List.nodup_cons.1 hnodup
    obtain ⟨hold, hnew, hkeys, hmem⟩ := ih hnodup' hrest
    refine ⟨fun code hfind => ?_, fun code found hfind => ?_,
      fun h => hkeys (Dict.nodup_keys_set h), ?_⟩
    · rw [find_cons] at hfind
      split at hfind
      · cases hfind
      · rename_i hcode
        rw [hold code hfind, Dict.get?_set, if_neg (fun heq => hcode (str_injective heq))]
    · rw [find_cons] at hfind
      split at hfind
      · rename_i hcode
        cases hfind
        subst hcode
        -- the code comes only once, so nothing behind replaces the entry
        rw [hold _ (find_eq_none_iff.2 hnot), Dict.get?_set_self]
        exact ⟨response, rfl, registry, _, hbuilt⟩
      · exact hnew code found hfind
    · intro key
      rw [hmem, Dict.mem_keys_set, List.map_cons]
      simp only [List.mem_cons, exists_eq_or_imp]
      rw [or_comm (a := key = str shape.statusCode), or_assoc]

/-- `build_responses`: one entry for every shape, and no other. -/
theorem entry_buildResponses {shapes : List (ResponseShape P.T)}
    (hnodup : (shapes.map ResponseShape.statusCode).Nodup) {registry : P.Registry}
    {built : Dict Str (Response P.Schema) × P.Registry}
    (h : buildResponses shapes registry = some built) :
    (∀ code shape, find code shapes = some shape →
        ∃ response, Dict.get? (str code) built.1 = some response ∧ Documents shape response) ∧
      (Dict.keys built.1).Nodup ∧
      ∀ key, key ∈ Dict.keys built.1 ↔
        ∃ code ∈ shapes.map ResponseShape.statusCode, key = str code := by
  obtain ⟨-, hnew, hkeys, hmem⟩ := entry_foldlM hnodup h
  refine ⟨hnew, hkeys List.nodup_nil, fun key => (hmem key).trans ?_⟩
  simp [Dict.keys]

end LocalPost.Openapi.Shapes
