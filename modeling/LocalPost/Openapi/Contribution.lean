import LocalPost.Openapi.Shapes

/-!
# What a middleware adds to the responses

A function middleware adds its parameters to an operation, and the responses of its return
annotation for codes that the operation does not have. The bare `OpResult` in the annotation stands
for what comes back from `call_next` and is to add nothing. The annotation is read by
`extract_response_shapes`, which is written for handlers: there `OpResult` is a 200
(`bare_opResult_adds_200`), `None` next to a success is a 404, and `None` alone an empty 200.

`contributes_iff` is the exact condition. `_AsyncFunctionMiddleware.contribute_operation` is the
same function; which annotations are request contexts (`Parts.isCtx`) is all that differs between
the two.
-/

set_option autoImplicit false

namespace LocalPost.Openapi.Shapes

open LocalPost.Core LocalPost.Http.Routing LocalPost.Openapi.Document LocalPost.Openapi.Signature

variable {T : Type} {P : Parts}

/-- A union of `OpResult` classes, with an argument or without, and `None`. -/
abbrev ResultUnion (T : Type) := List (Option (ResultClass × Option T))

/-- The members of the annotation. -/
def ResultUnion.members (union : ResultUnion T) : List (Member T) :=
  union.map fun
    | none => .none
    | some (cls, arg) => .result cls arg

/-- The members that are coded: neither `None` nor the bare `OpResult`. -/
def ResultUnion.coded (union : ResultUnion T) : ResultUnion T :=
  union.filter fun
    | none => false
    | some (cls, _) => cls ≠ .opResult

/-! ## What is to be added -/

/-- The middleware has added its parameters and one entry for each code of a coded member that the
operation did not document; what was there is as it was. -/
structure Contributes (resolved : List (Resolved (Responding P))) (union : ResultUnion P.T)
    (op op' : SpecOp (Responding P)) : Prop where
  parameters : ∃ added, (fieldsOf op').parameters = (fieldsOf op).parameters ++ added ∧
    added.map Parameter.slot = resolved.flatMap Resolved.slots
  kept : ∀ key ∈ Dict.keys op.responses, Dict.get? key op'.responses = Dict.get? key op.responses
  added : ∀ code shape, str code ∉ Dict.keys op.responses →
    find code (memberShapes union.coded.members) = some shape →
      ∃ response, Dict.get? (str code) op'.responses = some response ∧ Documents shape response
  nothingElse : ∀ key ∈ Dict.keys op'.responses, key ∈ Dict.keys op.responses ∨
    ∃ code ∈ memberCodes union.coded.members, key = str code
  once : (Dict.keys op.responses).Nodup → (Dict.keys op'.responses).Nodup

/-- The rules for handlers add nothing of their own to these entries. A bare `OpResult` in front of
all members with code 200 takes that entry, which does not matter when the first of the others has
the same one. -/
structure Contained (union : ResultUnion T) (documented : List Str) : Prop where
  passThrough : str 200 ∈ documented ∨
    ∀ arg, union.members.find? (fun m => m.code = some 200) = some (.result .opResult arg) →
      ∃ shape, find 200 (memberShapes union.coded.members) = some shape ∧ shape.bodyType = none ∧
        shape.description = ResultClass.opResult.description
  null : str 404 ∈ documented ∨ nullIsNotFound union.members = false
  default : str 200 ∈ documented ∨ onlyNone union.members = false

/-! ## Resolvers leave what is there -/

/-- A contribution that leaves the responses, and the parameters that are there. -/
def Appends (contribute : Contribution (vocabulary P) (SpecOp P)) : Prop :=
  ∀ op registry op' registry', contribute op registry = some (op', registry') →
    op'.responses = op.responses ∧ (fieldsOf op).parameters <+: (fieldsOf op').parameters

theorem Appends.nil : Appends (contributeAll (V := vocabulary P) []) := by
  intro op registry op' registry' hrun
  cases hrun
  exact ⟨rfl, List.prefix_refl _⟩

/-- Contributions that append do so one after the other. -/
theorem Appends.cons {c : Contribution (vocabulary P) (SpecOp P)}
    {cs : List (Contribution (vocabulary P) (SpecOp P))} (h : Appends c)
    (hs : Appends (contributeAll cs)) : Appends (contributeAll (c :: cs)) := by
  intro op registry op' registry' hrun
  unfold contributeAll at hrun
  rw [List.foldlM_cons] at hrun
  obtain ⟨⟨op₁, registry₁⟩, hfirst, hrest⟩ := Option.bind_eq_some_iff.1 hrun
  obtain ⟨hresponses, hprefix⟩ := h op registry op₁ registry₁ hfirst
  obtain ⟨hresponses', hprefix'⟩ := hs op₁ registry₁ op' registry' hrest
  exact ⟨hresponses'.trans hresponses, List.IsPrefix.trans hprefix hprefix'⟩

theorem appends_addParameter (slot : Slot) (description : Str) (target : Option P.T) :
    Appends (addParameter slot description target) := by
  intro op registry op' registry' hrun
  obtain ⟨found, -, hfound⟩ := Option.map_eq_some_iff.1 hrun
  cases hfound
  exact ⟨rfl, List.prefix_append _ _⟩

/-- The resolvers of the library leave what is there. -/
theorem appends_updateDoc (f : Factory P) (param : Param P)
    (hown : ∀ factory, f = .custom factory → Appends (factory.updateDoc param)) :
    Appends (f.updateDoc param) := by
  cases f with
  | fromPath name description => exact appends_addParameter _ _ _
  | fromQuery name description => exact appends_addParameter _ _ _
  | fromHeader name description => exact appends_addParameter _ _ _
  | fromBody contentType description =>
    intro op registry op' registry' hrun
    obtain ⟨found, -, hfound⟩ := Option.map_eq_some_iff.1 hrun
    cases hfound
    exact ⟨rfl, List.prefix_refl _⟩
  | custom factory => exact hown factory rfl

/-- What the parameters contribute is appended. -/
theorem appends_all {resolved : List (Resolved P)}
    (hown : ∀ r ∈ resolved, ∀ factory, r.2 = some (.custom factory) →
      Appends (factory.updateDoc r.1)) :
    Appends (contributeAll ((resolved.map Resolved.updateDoc).filterMap id)) := by
  induction resolved with
  | nil => exact Appends.nil
  | cons r rs ih =>
    have hrest := ih fun r' hr' => hown r' (List.mem_cons_of_mem r hr')
    obtain ⟨param, factory⟩ := r
    cases factory with
    | none => exact hrest
    | some f =>
      refine Appends.cons (appends_updateDoc f param fun own hf => ?_) hrest
      exact hown (param, some f) List.mem_cons_self own (congrArg some hf)

/-! ## The merge -/

/-- `mergeResponses` adds the entries whose keys are new. -/
theorem get?_mergeResponses (responses : Dict Str P.Response) (hnodup : (Dict.keys responses).Nodup)
    (op : SpecOp P) :
    (∀ key, Dict.get? key (mergeResponses responses op).responses =
      (Dict.get? key op.responses).or (Dict.get? key responses)) ∧
    ((Dict.keys op.responses).Nodup →
      (Dict.keys (mergeResponses responses op).responses).Nodup) := by
  unfold mergeResponses
  induction responses generalizing op with
  | nil => exact ⟨fun key => (Option.or_none).symm, fun h => h⟩
  | cons response responses ih =>
    obtain ⟨hnot, hnodup'⟩ := List.nodup_cons.1 hnodup
    rw [List.foldl_cons]
    split
    -- the operation has the code already: the response is left out
    · rename_i hmem
      obtain ⟨hget, hkeys⟩ := ih hnodup' op
      refine ⟨fun key => ?_, hkeys⟩
      rw [hget, Dict.get?_cons]
      split
      · rename_i hkey
        obtain ⟨found, hfound⟩ := Option.isSome_iff_exists.1 (Dict.isSome_get?_iff.2 (hkey ▸ hmem))
        rw [hfound]
        rfl
      · rfl
    -- it has not: the response is set, and found under its code
    · rename_i hmem
      obtain ⟨hget, hkeys⟩ :=
        ih hnodup' { op with responses := Dict.set response.1 response.2 op.responses }
      refine ⟨fun key => ?_, fun h => hkeys (Dict.nodup_keys_set h)⟩
      rw [hget, Dict.get?_cons, Dict.get?_set]
      split
      · rename_i hkey
        have hnone : Dict.get? key op.responses = none := by
          rw [← Option.not_isSome_iff_eq_none, Dict.isSome_get?_iff, ← hkey]
          exact hmem
        rw [hnone]
        rfl
      · rfl

/-- What a function middleware has done to an operation. -/
theorem contributeFunction_spec {resolved : List (Resolved (Responding P))}
    {shapes : List (ResponseShape P.T)} (hnodup : (shapes.map ResponseShape.statusCode).Nodup)
    (hown : ∀ r ∈ resolved, ∀ factory, r.2 = some (.custom factory) →
      Appends (factory.updateDoc r.1))
    {op op' : SpecOp (Responding P)} {registry registry' : P.Registry}
    (h : contributeFunction resolved (buildResponses (P := P) shapes) op registry =
      some (op', registry')) :
    (∃ added, (fieldsOf op').parameters = (fieldsOf op).parameters ++ added ∧
      added.map Parameter.slot = resolved.flatMap Resolved.slots) ∧
    (∀ key ∈ Dict.keys op.responses, Dict.get? key op'.responses = Dict.get? key op.responses) ∧
    (∀ code shape, str code ∉ Dict.keys op.responses → find code shapes = some shape →
      ∃ response, Dict.get? (str code) op'.responses = some response ∧ Documents shape response) ∧
    (∀ key, key ∈ Dict.keys op'.responses ↔
      key ∈ Dict.keys op.responses ∨ ∃ code ∈ shapes.map ResponseShape.statusCode, key = str code) ∧
    ((Dict.keys op.responses).Nodup → (Dict.keys op'.responses).Nodup) := by
  have hslots :=
    (adds_contributeFunction resolved (buildResponses (P := P) shapes) op
      registry op' registry' h).2.1
  obtain ⟨⟨part, registry₁⟩, hpart, hrest⟩ := Option.bind_eq_some_iff.1 h
  obtain ⟨built, hbuilt, hmerged⟩ := Option.map_eq_some_iff.1 hrest
  cases hmerged
  obtain ⟨hresponses, hprefix⟩ := appends_all hown op registry part registry₁ hpart
  obtain ⟨hentries, hkeys, hmem⟩ := entry_buildResponses hnodup hbuilt
  obtain ⟨hget, honce⟩ := get?_mergeResponses (P := Responding P) built.1 hkeys part
  dsimp only at hget honce
  rw [hresponses] at hget honce
  have hfields := (mergeResponses_spec (P := Responding P) built.1 part).2
  -- the parts in turn: parameters, old codes, new codes, all codes
  refine ⟨?_, fun key hkey => ?_, fun code shape hnew hfind => ?_, fun key => ?_, honce⟩
  · obtain ⟨added, hadded⟩ := hprefix
    refine ⟨added, ?_, ?_⟩
    · rw [hfields]
      exact hadded.symm
    · rw [hfields, ← hadded, List.map_append] at hslots
      exact List.append_cancel_left hslots
  · obtain ⟨found, hfound⟩ := Option.isSome_iff_exists.1 (Dict.isSome_get?_iff.2 hkey)
    rw [hget, hfound]
    rfl
  · obtain ⟨response, hresponse, hdocuments⟩ := hentries code shape hfind
    have hnone : Dict.get? (str code) op.responses = none := by
      rw [← Option.not_isSome_iff_eq_none, Dict.isSome_get?_iff]
      exact hnew
    refine ⟨response, ?_, hdocuments⟩
    rw [hget, hnone]
    exact hresponse
  · rw [← Dict.isSome_get?_iff, hget, Option.isSome_or, Bool.or_eq_true, Dict.isSome_get?_iff,
      Dict.isSome_get?_iff, hmem]

/-! ## Bare and coded members -/

/-- An `OpResult` class in front of a union. -/
theorem find_result_cons (cls : ResultClass) (arg : Option T) (union : ResultUnion T) (code : Nat) :
    find code (memberShapes (ResultUnion.members (some (cls, arg) :: union))) =
      if cls.statusCode = code then (Member.result cls arg).shape
      else find code (memberShapes union.members) := by
  rw [find_memberShapes, find_memberShapes]
  unfold ResultUnion.members
  rw [List.map_cons, List.find?_cons]
  by_cases hcode : cls.statusCode = code
  · simp only [Member.code, hcode, decide_true, if_true, Option.bind_some]
  · simp only [Member.code, Option.some.injEq, hcode, decide_false, if_false]

/-- The shape for a code is that of the first coded member with it, unless a bare `OpResult` comes
before. -/
theorem find_coded (union : ResultUnion T) (code : Nat) :
    find code (memberShapes union.members) = find code (memberShapes union.coded.members) ∨
      code = 200 ∧ ∃ arg,
        union.members.find? (fun m => m.code = some 200) = some (.result .opResult arg) := by
  induction union with
  | nil => exact .inl rfl
  | cons m union ih =>
    cases m with
    | none => exact ih
    | some member =>
      obtain ⟨cls, arg⟩ := member
      by_cases hbare : cls = .opResult
      · subst hbare
        -- a bare `OpResult` stands for 200, and for no code otherwise
        by_cases hcode : code = 200
        · exact .inr ⟨hcode, arg, rfl⟩
        · rcases ih with hsame | ⟨h200, -⟩
          · left
            rw [find_result_cons, if_neg fun h => hcode h.symm]
            exact hsame
          · exact absurd h200 hcode
      · have hcoded : ResultUnion.coded (some (cls, arg) :: union) =
            some (cls, arg) :: ResultUnion.coded union :=
          List.filter_cons_of_pos (decide_eq_true hbare)
        rw [hcoded, find_result_cons, find_result_cons]
        -- the member has the code, or the first one with it is behind it
        by_cases hcode : cls.statusCode = code
        · exact .inl (by rw [if_pos hcode, if_pos hcode])
        · rw [if_neg hcode, if_neg hcode]
          rcases ih with hsame | ⟨h200, arg', hfirst⟩
          · exact .inl hsame
          · right
            refine ⟨h200, arg', ?_⟩
            rw [h200] at hcode
            unfold ResultUnion.members at hfirst ⊢
            rw [List.map_cons, List.find?_cons]
            simp only [Member.code, Option.some.injEq, hcode, decide_false]
            exact hfirst

/-- A bare `OpResult` that comes first is documented as a 200. -/
theorem find_extract_opResult {union : ResultUnion T} {arg : Option T}
    (hfirst : union.members.find? (fun m => m.code = some 200) = some (.result .opResult arg)) :
    find 200 (extractResponseShapes (some union.members)).1 =
      some (ResultClass.bare .opResult) := by
  rw [find_extract, find_memberShapes, hfirst]
  rfl

/-- A code of a coded member is a code of the union. -/
theorem mem_memberCodes_of_coded {union : ResultUnion T} {code : Nat}
    (h : code ∈ memberCodes union.coded.members) : code ∈ memberCodes union.members := by
  unfold memberCodes at h ⊢
  obtain ⟨m, hm, hcode⟩ := List.mem_filterMap.1 h
  unfold ResultUnion.members ResultUnion.coded at hm
  obtain ⟨entry, hentry, hmember⟩ := List.mem_map.1 hm
  refine List.mem_filterMap.2 ⟨m, ?_, hcode⟩
  exact List.mem_map.2 ⟨entry, List.mem_of_mem_filter hentry, hmember⟩

theorem mem_coded_iff {union : ResultUnion T} {code : Nat} :
    code ∈ memberCodes union.coded.members ↔
      ∃ shape, find code (memberShapes union.coded.members) = some shape := by
  rw [← map_memberShapes, ← find_isSome_iff, Option.isSome_iff_exists]

/-- A shape without a body documents only its description. -/
theorem documents_bodyless {shape : ResponseShape P.T} (hbody : shape.bodyType = none)
    (response : Response P.Schema) (registry : P.Registry) :
    Documents shape response ↔ response = ⟨shape.description, none⟩ := by
  unfold Documents buildResponse
  rw [hbody]
  constructor
  · rintro ⟨registry₁, registry₂, h⟩
    exact (Prod.mk.inj (Option.some.inj h)).1.symm
  · rintro rfl
    exact ⟨registry, registry, rfl⟩

/-- An entry without content comes from a shape without a body. -/
theorem bodyless_of_documents {shape : ResponseShape P.T} {description : Str}
    (h : Documents shape (⟨description, none⟩ : Response P.Schema)) :
    shape.bodyType = none ∧ shape.description = description := by
  obtain ⟨registry, registry', hbuilt⟩ := h
  unfold buildResponse at hbuilt
  cases hbody : shape.bodyType with
  | none =>
    rw [hbody] at hbuilt
    exact ⟨rfl, congrArg Response.description (Prod.mk.inj (Option.some.inj hbuilt)).1⟩
  | some t =>
    rw [hbody] at hbuilt
    obtain ⟨found, -, hfound⟩ := Option.map_eq_some_iff.1 hbuilt
    have hcontent := congrArg Response.content (Prod.mk.inj hfound).1
    cases hcontent

/-! ## When nothing else is added -/

section Exact

variable {resolved : List (Resolved (Responding P))} {union : ResultUnion P.T}
  {op op' : SpecOp (Responding P)} {registry registry' : P.Registry}

/-- Where the contribution is right, what the annotation documents for a new code is what a coded
member documents. -/
theorem coded_of_contributes
    (hown : ∀ r ∈ resolved, ∀ factory, r.2 = some (.custom factory) →
      Appends (factory.updateDoc r.1))
    (h : contributeFunction resolved
      (buildResponses (P := P) (extractResponseShapes (some union.members)).1) op registry =
        some (op', registry'))
    (hc : Contributes resolved union op op') {code : Nat} {shape : ResponseShape P.T}
    (hnew : str code ∉ Dict.keys op.responses)
    (hfind : find code (extractResponseShapes (some union.members)).1 = some shape) :
    ∃ shape' response, find code (memberShapes union.coded.members) = some shape' ∧
      Documents shape response ∧ Documents shape' response := by
  obtain ⟨-, -, hentries, -, -⟩ := contributeFunction_spec (nodup_extract union.members) hown h
  obtain ⟨response, hresponse, hdocuments⟩ := hentries code shape hnew hfind
  have hkey : str code ∈ Dict.keys op'.responses := by
    rw [← Dict.isSome_get?_iff, hresponse]
    rfl
  rcases hc.nothingElse _ hkey with hold | ⟨code', hcode', heq⟩
  · exact absurd hold hnew
  · rw [← str_injective heq, mem_coded_iff] at hcode'
    obtain ⟨shape', hshape'⟩ := hcode'
    obtain ⟨response', hresponse', hdocuments'⟩ := hc.added code shape' hnew hshape'
    rw [hresponse] at hresponse'
    cases hresponse'
    exact ⟨shape', response, hshape', hdocuments, hdocuments'⟩

/-- What contributes, contains the responses of the union. -/
theorem contained_of_contributes
    (hown : ∀ r ∈ resolved, ∀ factory, r.2 = some (.custom factory) →
      Appends (factory.updateDoc r.1))
    (h : contributeFunction resolved
      (buildResponses (P := P) (extractResponseShapes (some union.members)).1) op registry =
        some (op', registry'))
    (hc : Contributes resolved union op op') : Contained union (Dict.keys op.responses) := by
  refine ⟨?_, ?_, ?_⟩
  -- each of the three undocumented kinds asks for a code that is documented or taken
  · by_cases hdoc : str 200 ∈ Dict.keys op.responses
    · exact .inl hdoc
    · right
      intro arg hfirst
      obtain ⟨shape', response, hshape', hbare, hdocuments⟩ :=
        coded_of_contributes hown h hc hdoc (find_extract_opResult hfirst)
      have hresponse := (documents_bodyless rfl response registry).1 hbare
      rw [hresponse] at hdocuments
      exact ⟨shape', hshape', bodyless_of_documents hdocuments⟩
  · by_cases hdoc : str 404 ∈ Dict.keys op.responses
    · exact .inl hdoc
    · right
      rw [Bool.eq_false_iff]
      intro hnull
      obtain ⟨shape', -, hshape', -, -⟩ :=
        coded_of_contributes hown h hc hdoc (find_extract_null hnull)
      have hcode := mem_memberCodes_of_coded (mem_coded_iff.2 ⟨shape', hshape'⟩)
      exact (nullIsNotFound_iff.1 hnull).2.2 hcode
  · by_cases hdoc : str 200 ∈ Dict.keys op.responses
    · exact .inl hdoc
    · right
      rw [Bool.eq_false_iff]
      intro honly
      obtain ⟨shape', -, hshape', -, -⟩ :=
        coded_of_contributes hown h hc hdoc (find_extract_onlyNone honly)
      have hcode := mem_memberCodes_of_coded (mem_coded_iff.2 ⟨shape', hshape'⟩)
      rw [onlyNone_iff.1 honly] at hcode
      cases hcode

/-- Under the condition a code that the annotation documents is old or that of a coded member. -/
theorem Contained.mem_coded {documented : List Str} (hc : Contained union documented) {code : Nat}
    (hcode : code ∈ (extractResponseShapes (some union.members)).1.map ResponseShape.statusCode)
    (hnew : str code ∉ documented) : code ∈ memberCodes union.coded.members := by
  rcases find_extract_cases hcode with ⟨shape, hshape⟩ | ⟨hnull, rfl⟩ | ⟨honly, rfl⟩
  · rw [mem_coded_iff]
    rcases find_coded union code with hsame | ⟨rfl, arg, hfirst⟩
    · exact ⟨shape, hsame.symm.trans hshape⟩
    · rcases hc.passThrough with h200 | hpass
      · exact absurd h200 hnew
      · obtain ⟨shape', hshape', -⟩ := hpass arg hfirst
        exact ⟨shape', hshape'⟩
  · rcases hc.null with h404 | hflag
    · exact absurd h404 hnew
    · rw [hflag] at hnull
      cases hnull
  · rcases hc.default with h200 | hflag
    · exact absurd h200 hnew
    · rw [hflag] at honly
      cases honly

/-- What contains the responses of the union, contributes. -/
theorem contributes_of_contained
    (hown : ∀ r ∈ resolved, ∀ factory, r.2 = some (.custom factory) →
      Appends (factory.updateDoc r.1))
    (h : contributeFunction resolved
      (buildResponses (P := P) (extractResponseShapes (some union.members)).1) op registry =
        some (op', registry'))
    (hc : Contained union (Dict.keys op.responses)) : Contributes resolved union op op' := by
  obtain ⟨hparameters, hkept, hentries, hkeys, honce⟩ :=
    contributeFunction_spec (nodup_extract union.members) hown h
  refine ⟨hparameters, hkept, ?_, ?_, honce⟩
  · intro code shape hnew hfind
    -- the union without its bare results says the same for the code, or the code is 200
    rcases find_coded union code with hsame | ⟨rfl, arg, hfirst⟩
    · apply hentries code shape hnew
      rw [find_extract, hsame, hfind]
      rfl
    · -- the bare `OpResult` came first: its entry is the same
      rcases hc.passThrough with hdoc | hpass
      · exact absurd hdoc hnew
      · obtain ⟨shape', hshape', hbody, hdescription⟩ := hpass arg hfirst
        rw [hfind] at hshape'
        cases hshape'
        obtain ⟨response, hresponse, hdocuments⟩ :=
          hentries 200 _ hnew (find_extract_opResult hfirst)
        refine ⟨response, hresponse, (documents_bodyless hbody response registry).2 ?_⟩
        rw [hdescription]
        exact (documents_bodyless rfl response registry).1 hdocuments
  -- a code of the operation, or one of the shapes
  · intro key hkey
    rcases (hkeys key).1 hkey with hold | ⟨code, hcode, rfl⟩
    · exact .inl hold
    · by_cases hdoc : str code ∈ Dict.keys op.responses
      · exact .inl hdoc
      · exact .inr ⟨code, hc.mem_coded hcode hdoc, rfl⟩

end Exact

/-- A middleware contributes what its parameters and its coded members say, and nothing else,
exactly when the rules for handlers add nothing to that; `hown` is about resolvers of the user's
own. -/
theorem contributes_iff {resolved : List (Resolved (Responding P))} {union : ResultUnion P.T}
    (hown : ∀ r ∈ resolved, ∀ factory, r.2 = some (.custom factory) →
      Appends (factory.updateDoc r.1))
    {op op' : SpecOp (Responding P)} {registry registry' : P.Registry}
    (h : contributeFunction resolved
      (buildResponses (P := P) (extractResponseShapes (some union.members)).1) op registry =
        some (op', registry')) :
    Contributes resolved union op op' ↔ Contained union (Dict.keys op.responses) := by
  constructor
  · intro hc
    exact contained_of_contributes hown h hc
  · intro hc
    exact contributes_of_contained hown h hc

/-- One type, whose schema is always the same. -/
def oneType : Parts where
  T := Unit
  str := ()
  Response := Unit
  Schema := Unit
  Info := Unit
  Registry := Unit
  isBodyType _ := false
  isCtx _ := false
  isAny _ := false
  unwrapOptional _ := none
  schemaFor _ registry := some ((), registry)
  string := ()
  permissive := ()

/-- An operation with an empty response for one class. -/
def responding (cls : ResultClass) : SpecOp (Responding oneType) :=
  ⟨[], [], [], [(str cls.statusCode, ⟨cls.description, none⟩)], none⟩

/-- `Unauthorized[str] | OpResult`. -/
def guarded : ResultUnion Unit := [some (.unauthorized, some ()), some (.opResult, none)]

/-- A resolver of the user's own, which adds a header. -/
def tenant : CustomFactory (Responding oneType) where
  updateDoc _ := addParameter ⟨"X-Tenant".toList, .header, true⟩ [] none
  slots _ := [⟨"X-Tenant".toList, .header, true⟩]
  security _ := []
  adds _ := adds_addParameter _ _ _

/-- A middleware that reads the header of the credentials, and one that the user's own resolver
reads. -/
def guardParameters : List (Resolved (Responding oneType)) :=
  [authorization, (⟨"tenant".toList, none, false⟩, some (.custom tenant))]

/-- On an operation that documents 200. -/
theorem contributes_iff_guarded : ∃ op',
    contributeFunction guardParameters
        (buildResponses (P := oneType) (extractResponseShapes (some guarded.members)).1)
        (responding .ok) () =
      some (op', ()) ∧ Contributes guardParameters guarded (responding .ok) op' := by
  have hown : ∀ r ∈ guardParameters, ∀ factory, r.2 = some (.custom factory) →
      Appends (factory.updateDoc r.1) := by
    intro r hr factory hfactory
    rcases List.mem_cons.1 hr with rfl | hr
    · cases hfactory
    · rw [List.mem_singleton.1 hr] at hfactory ⊢
      cases hfactory
      exact appends_addParameter ⟨"X-Tenant".toList, .header, true⟩ [] none
  refine ⟨_, rfl, (contributes_iff hown rfl).2 ?_⟩
  refine ⟨.inl ?_, .inr rfl, .inr rfl⟩
  exact List.mem_cons_self

/-- `Created`. -/
def created : ResultClass := .coded 201 "Created".toList

/-- On an operation that documents 201 only, the bare `OpResult` adds a 200. -/
theorem bare_opResult_adds_200 : ∃ op',
    contributeFunction []
      (buildResponses (P := oneType) (extractResponseShapes (some guarded.members)).1)
      (responding created) () = some (op', ()) ∧
    str 200 ∈ Dict.keys op'.responses ∧ ¬Contributes [] guarded (responding created) op' := by
  refine ⟨_, rfl, by decide, fun h => ?_⟩
  rcases h.nothingElse (str 200) (by decide) with hold | ⟨code, hcode, heq⟩
  · exact absurd hold (by decide)
  · have h401 : code = 401 := List.mem_singleton.1 hcode
    rw [h401] at heq
    exact absurd (str_injective heq) (by decide)

end LocalPost.Openapi.Shapes
