import Mathlib.Data.List.Nodup
import Mathlib.Data.List.Pairwise
import LocalPost.Http.Routing.Dispatch
import LocalPost.Openapi.Signature

/-!
# Well-formed documents

A document is well-formed when its operation ids are distinct, no operation has two parameters of
one name in one place, the path parameters of an operation are the variables of its template, and
the security schemes that it names are defined. `openapi_doc` checks none of this: an operation is
named after its handler, and the handler and each middleware add their parameters without a look at
those that are there. `wellFormed_iff` is the exact condition on what is registered, `Coordinated`;
`two_handlers_of_one_name` is a document that is not well-formed.
-/

set_option autoImplicit false

namespace LocalPost.Openapi.Signature

open LocalPost.Core LocalPost.Http.Routing LocalPost.Openapi.Document

variable {P : Parts} {U : Unicode}

/-! ## What is asked of a document -/

/-- The operations of a document, with their paths. -/
def entries (doc : Doc P) : List (Str × SpecOp P) :=
  doc.paths.flatMap fun item => item.2.operations.map fun op => (item.1, op.2)

/-- The names of the path parameters. -/
def pathNames (spec : SpecOp P) : List Str :=
  ((fieldsOf spec).parameters.filter (·.location = .path)).map (·.name)

/-- No operation id comes twice; no name comes twice in one place of an operation; the path
parameters are the variables of the template, each once and required; and the schemes of the
requirements are in the components. -/
structure WellFormed (U : Unicode) (doc : Doc P) : Prop where
  operationIds : ((entries doc).map fun e => e.2.operation_id).Nodup
  parameters : ∀ e ∈ entries doc,
    ((fieldsOf e.2).parameters.map fun p => (p.name, p.location)).Nodup
  pathParameters : ∀ e ∈ entries doc, ∃ template, URITemplate.parse U e.1 = some template ∧
    (pathNames e.2).Nodup ∧ (∀ v, v ∈ pathNames e.2 ↔ v ∈ template.variable_names) ∧
      ∀ p ∈ (fieldsOf e.2).parameters, p.location = .path → p.required = true
  security : ∀ e ∈ entries doc, ∀ requirement ∈ (fieldsOf e.2).security,
    ∀ n ∈ Dict.keys requirement, n ∈ Dict.keys (securitySchemes doc)

/-! ## The condition -/

/-- What the handler and the middlewares add to the parameters of an operation. -/
def allSlots (app : List (OpMiddleware P)) (r : Registration P) (resolved : List (Resolved P)) :
    List Slot :=
  resolved.flatMap Resolved.slots ++ (app ++ r.middlewares).flatMap (·.slots)

/-- What they add to its requirements. -/
def allSecurity (app : List (OpMiddleware P)) (r : Registration P) (resolved : List (Resolved P)) :
    List Requirement :=
  resolved.flatMap Resolved.security ++ (app ++ r.middlewares).flatMap (·.security)

/-- `_all_middlewares`: those of the app, and those that its operations have. -/
def allMiddlewares (app : List (OpMiddleware P)) (regs : List (Registration P)) :
    List (OpMiddleware P) :=
  app ++ regs.flatMap fun r => app ++ r.middlewares

/-- The names that the registrations would have to agree on: the ids that `operation_id` picks are
different; nothing that a handler and the middlewares around it read has one name in one place;
nothing but a `FromPath` of the handler adds a path parameter; and each scheme of a requirement is
one that some middleware adds to the root. -/
structure Coordinated (U : Unicode) (app : List (OpMiddleware P)) (regs : List (Registration P)) :
    Prop where
  ids : (regs.map fun r => operationId r.method r.path r.fn).Nodup
  once : ∀ r ∈ regs, ∀ found, r.resolve U = some found →
    ((allSlots app r found.2).map fun s => (s.name, s.location)).Nodup
  path : ∀ r ∈ regs, ∀ found, r.resolve U = some found →
    (∀ p ∈ found.2, p.bound = none → ∀ s ∈ p.slots, s.location ≠ .path) ∧
      ∀ mw ∈ app ++ r.middlewares, ∀ s ∈ mw.slots, s.location ≠ .path
  schemes : ∀ r ∈ regs, ∀ found, r.resolve U = some found →
    ∀ requirement ∈ allSecurity app r found.2,
    ∀ n ∈ Dict.keys requirement, ∃ mw ∈ allMiddlewares app regs, n ∈ mw.schemes

set_option synthInstance.maxSize 256 in
instance (app : List (OpMiddleware P)) (regs : List (Registration P)) :
    Decidable (Coordinated U app regs) :=
  decidable_of_iff
    ((regs.map fun r => operationId r.method r.path r.fn).Nodup ∧
      (∀ r ∈ regs, ∀ found ∈ r.resolve U,
        ((allSlots app r found.2).map fun s => (s.name, s.location)).Nodup) ∧
      (∀ r ∈ regs, ∀ found ∈ r.resolve U,
        (∀ p ∈ found.2, p.bound = none → ∀ s ∈ p.slots, s.location ≠ .path) ∧
          ∀ mw ∈ app ++ r.middlewares, ∀ s ∈ mw.slots, s.location ≠ .path) ∧
      ∀ r ∈ regs, ∀ found ∈ r.resolve U, ∀ requirement ∈ allSecurity app r found.2,
        ∀ n ∈ Dict.keys requirement, ∃ mw ∈ allMiddlewares app regs, ∃ name ∈ mw.schemes, name = n)
    ⟨fun h => ⟨h.1, h.2.1, h.2.2.1, by simpa using h.2.2.2⟩,
      fun h => ⟨h.ids, h.once, h.path, by simpa using h.schemes⟩⟩

/-! ## One operation -/

/-- What the entry of a registration is. -/
structure Built (U : Unicode) (app : List (OpMiddleware P)) (r : Registration P)
    (found : URITemplate × List (Resolved P))
    (spec : SpecOp P) : Prop where
  resolve : r.resolve U = some found
  id : spec.operation_id = operationId r.method r.path r.fn
  slots : (fieldsOf spec).parameters.map Parameter.slot = allSlots app r found.2
  security : (fieldsOf spec).security = allSecurity app r found.2

theorem adds_middlewares (mws : List (OpMiddleware P)) :
    Adds (contributeAll ((mws.map OpMiddleware.toMiddleware).map Middleware.contribute_operation))
      (mws.flatMap (·.slots)) (mws.flatMap (·.security)) := by
  induction mws with
  | nil => exact Adds.nil
  | cons mw mws ih => exact mw.adds.cons ih

/-- What the spec of an operation is built from. -/
theorem built_of_buildSpec {app : List (OpMiddleware P)} {r : Registration P}
    {op : Document.Operation (vocabulary P)} (hcreate : r.create U app = some op)
    {registry registry' : P.Registry} {spec : SpecOp P}
    (h : op.buildSpec registry = some (spec, registry')) : ∃ found, Built U app r found spec := by
  obtain ⟨found, hresolve, rfl⟩ := Option.map_eq_some_iff.1 hcreate
  obtain ⟨part, hown, hrest⟩ := Option.bind_eq_some_iff.1 h
  obtain ⟨responses, -, hmiddlewares⟩ := Option.bind_eq_some_iff.1 hrest
  obtain ⟨hid, hslots, hsecurity⟩ := Resolved.adds_all found.2 _ _ part.1 part.2 hown
  obtain ⟨hid', hslots', hsecurity'⟩ :=
    adds_middlewares (app ++ r.middlewares) _ _ spec registry' hmiddlewares
  refine ⟨found, hresolve, hid'.trans hid, ?_, ?_⟩
  · rw [hslots']
    change (fieldsOf part.1).parameters.map Parameter.slot ++ _ = _
    rw [hslots]
    rfl
  · rw [hsecurity']
    change (fieldsOf part.1).security ++ _ = _
    rw [hsecurity]
    rfl

/-- A registered handler binds the variables of its template, and no others. -/
theorem bound_iff {r : Registration P} {found : URITemplate × List (Resolved P)}
    (h : r.resolve U = some found) :
    URITemplate.parse U r.path = some found.1 ∧
      ∀ v, v ∈ found.1.variable_names ↔ ∃ p ∈ found.2, p.bound = some v := by
  obtain ⟨template, hparse, hrest⟩ := Option.bind_eq_some_iff.1 h
  obtain ⟨resolved, -, hcheck⟩ := Option.bind_eq_some_iff.1 hrest
  obtain ⟨hbound, hsome⟩ := Option.ite_none_right_eq_some.1 hcheck
  cases hsome
  refine ⟨hparse, fun v => ?_⟩
  rw [Bool.and_eq_true, List.all_eq_true, List.all_eq_true] at hbound
  rw [← List.mem_filterMap]
  constructor
  · intro hv
    simpa using hbound.2 v hv
  · intro hv
    simpa using hbound.1 v hv

/-- A `FromPath` adds one path parameter. -/
theorem slots_of_bound {p : Resolved P} {v : Str} (h : p.bound = some v) :
    p.slots = [⟨v, .path, true⟩] := by
  obtain ⟨param, factory⟩ := p
  unfold Resolved.bound at h
  split at h
  · rename_i name description heq
    cases h
    dsimp only at heq
    subst heq
    rfl
  · cases h

section Path

variable {app : List (OpMiddleware P)} {r : Registration P}
    {found : URITemplate × List (Resolved P)}

/-- The slots of the handler and the middlewares that are for the path. -/
theorem mem_pathSlots_iff (s : Slot) : s ∈ allSlots app r found.2 ↔
    (∃ p ∈ found.2, s ∈ p.slots) ∨ ∃ mw ∈ app ++ r.middlewares, s ∈ mw.slots := by
  rw [allSlots, List.mem_append, List.mem_flatMap, List.mem_flatMap]

/-- With no name twice in one place: the path parameters are the variables of the template if and
only if nothing but the handler's own `FromPath` adds one. -/
theorem pathParameters_iff (h : r.resolve U = some found)
    (honce : ((allSlots app r found.2).map fun s => (s.name, s.location)).Nodup) :
    ((∀ v, v ∈ ((allSlots app r found.2).filter (·.location = .path)).map (·.name) ↔
      v ∈ found.1.variable_names) ∧
      ∀ s ∈ allSlots app r found.2, s.location = .path → s.required = true) ↔
    (∀ p ∈ found.2, p.bound = none → ∀ s ∈ p.slots, s.location ≠ .path) ∧
      ∀ mw ∈ app ++ r.middlewares, ∀ s ∈ mw.slots, s.location ≠ .path := by
  have hvars := (bound_iff h).2
  have hnames : ∀ v, v ∈ ((allSlots app r found.2).filter (·.location = .path)).map (·.name) ↔
      ∃ s ∈ allSlots app r found.2, s.location = .path ∧ s.name = v := by
    intro v
    simp [and_assoc]
  constructor
  · rintro ⟨hexact, -⟩
    have hown : ∀ s ∈ allSlots app r found.2, s.location = .path →
        ∃ p ∈ found.2, p.bound = some s.name ∧
          (s.name, s.location) ∈ p.slots.map fun s => (s.name, s.location) := by
      intro s hs hpath
      obtain ⟨p, hp, hbound⟩ :=
        (hvars s.name).1 ((hexact s.name).1 ((hnames s.name).2 ⟨s, hs, hpath, rfl⟩))
      refine ⟨p, hp, hbound, ?_⟩
      rw [slots_of_bound hbound, hpath]
      exact List.mem_singleton_self _
    -- a second slot for the path would have the name of the bound one, in the same place
    unfold allSlots at honce
    rw [List.map_append, List.nodup_append, List.map_flatMap, List.map_flatMap] at honce
    obtain ⟨hhandler, -, hapart⟩ := honce
    constructor
    · intro p hp hnone s hs hpath
      obtain ⟨p', hp', hbound, hmem⟩ := hown s ((mem_pathSlots_iff s).2 (.inl ⟨p, hp, hs⟩)) hpath
      have hne : p ≠ p' := by
        rintro rfl
        rw [hnone] at hbound
        cases hbound
      have hsymm : Std.Symm (Function.onFun List.Disjoint fun p : Resolved P =>
          p.slots.map fun s => (s.name, s.location)) := ⟨fun _ _ hd _ hx hy => hd hy hx⟩
      have hdisjoint := (List.nodup_flatMap.1 hhandler).2.forall hp hp' hne
      exact hdisjoint (List.mem_map_of_mem hs) hmem
    · intro mw hmw s hs hpath
      obtain ⟨p', hp', -, hmem⟩ := hown s ((mem_pathSlots_iff s).2 (.inr ⟨mw, hmw, hs⟩)) hpath
      exact hapart _ (List.mem_flatMap.2 ⟨p', hp', hmem⟩) _
        (List.mem_flatMap.2 ⟨mw, hmw, List.mem_map_of_mem hs⟩) rfl
  · rintro ⟨hhandler, hmiddlewares⟩
    have hbound : ∀ s ∈ allSlots app r found.2, s.location = .path →
        ∃ p ∈ found.2, p.bound = some s.name ∧ s.required = true := by
      intro s hs hpath
      rcases (mem_pathSlots_iff s).1 hs with ⟨p, hp, hmem⟩ | ⟨mw, hmw, hmem⟩
      · cases hb : p.bound with
        | none => exact absurd hpath (hhandler p hp hb s hmem)
        | some v =>
          rw [slots_of_bound hb] at hmem
          cases List.mem_singleton.1 hmem
          exact ⟨p, hp, hb, rfl⟩
      · exact absurd hpath (hmiddlewares mw hmw s hmem)
    refine ⟨fun v => ?_, fun s hs hpath => ?_⟩
    · rw [hnames, hvars]
      constructor
      · rintro ⟨s, hs, hpath, rfl⟩
        obtain ⟨p, hp, hb, -⟩ := hbound s hs hpath
        exact ⟨p, hp, hb⟩
      · rintro ⟨p, hp, hb⟩
        refine ⟨⟨v, .path, true⟩, (mem_pathSlots_iff _).2 (.inl ⟨p, hp, ?_⟩), rfl, rfl⟩
        rw [slots_of_bound hb]
        exact List.mem_singleton_self _
    · obtain ⟨-, -, -, hrequired⟩ := hbound s hs hpath
      exact hrequired

end Path

/-! ## The root -/

/-- The middlewares whose `contribute_root` is called: every identity once. -/
theorem distinct_toMiddleware (seen : List Nat) (mws : List (OpMiddleware P)) :
    ∃ called : List (OpMiddleware P),
      distinct seen (mws.map OpMiddleware.toMiddleware) = called.map OpMiddleware.toMiddleware ∧
      (∀ mw ∈ called, mw ∈ mws) ∧ ∀ mw ∈ mws, mw.id ∉ seen → ∃ mw' ∈ called, mw'.id = mw.id := by
  induction mws generalizing seen with
  | nil =>
    exact ⟨[], rfl, fun _ h => absurd h List.not_mem_nil, fun _ h => absurd h List.not_mem_nil⟩
  | cons mw mws ih =>
    rw [List.map_cons, distinct]
    split
    -- the middleware is left out: one with its identity has been called
    · rename_i hseen
      obtain ⟨called, heq, hsub, hall⟩ := ih seen
      refine ⟨called, heq, fun m hm => List.mem_cons_of_mem _ (hsub m hm), fun m hm hnot => ?_⟩
      rcases List.mem_cons.1 hm with rfl | hmem
      · exact absurd hseen hnot
      · exact hall m hmem hnot
    · obtain ⟨called, heq, hsub, hall⟩ := ih (mw.id :: seen)
      refine ⟨mw :: called, congrArg (mw.toMiddleware :: ·) heq,
        fun m hm => ?_, fun m hm hnot => ?_⟩
      · rcases List.mem_cons.1 hm with rfl | hmem
        · exact List.mem_cons_self
        · exact List.mem_cons_of_mem _ (hsub m hmem)
      -- it is called itself, or one behind it
      · by_cases hid : m.id = mw.id
        · exact ⟨mw, List.mem_cons_self, hid.symm⟩
        · rcases List.mem_cons.1 hm with rfl | hmem
          · exact absurd rfl hid
          · obtain ⟨m', hm', heq'⟩ := hall m hmem fun h => (List.mem_cons.1 h).elim hid hnot
            exact ⟨m', List.mem_cons_of_mem _ hm', heq'⟩

/-- The middlewares together add the schemes of each. -/
theorem addsRoot_all (mws : List (OpMiddleware P)) :
    AddsRoot (contributeAll ((mws.map OpMiddleware.toMiddleware).map Middleware.contribute_root))
      (mws.flatMap (·.schemes)) := by
  induction mws with
  | nil => exact AddsRoot.nothing
  | cons mw mws ih =>
    intro doc registry doc' registry' hrun
    unfold contributeAll at hrun
    rw [List.map_cons, List.map_cons, List.foldlM_cons] at hrun
    obtain ⟨⟨doc₁, registry₁⟩, hfirst, hrest⟩ := Option.bind_eq_some_iff.1 hrun
    obtain ⟨hpaths, hschemes⟩ := mw.addsRoot doc registry doc₁ registry₁ hfirst
    obtain ⟨hpaths', hschemes'⟩ := ih doc₁ registry₁ doc' registry' hrest
    refine ⟨hpaths'.trans hpaths, fun n => ?_⟩
    rw [hschemes', hschemes, List.flatMap_cons, List.mem_append, or_assoc]

/-- The middlewares of the operations are those of the app and of each registration. -/
theorem middlewares_created {app : List (OpMiddleware P)} {regs : List (Registration P)}
    {ops : List (Document.Operation (vocabulary P))} (h : regs.mapM (·.create U app) = some ops) :
    ops.flatMap Document.Operation.middlewares =
      (regs.flatMap fun r => app ++ r.middlewares).map OpMiddleware.toMiddleware := by
  induction regs generalizing ops with
  | nil =>
    cases h
    rfl
  | cons r regs ih =>
    rw [List.mapM_cons] at h
    obtain ⟨op, hcreate, hrest⟩ := Option.bind_eq_some_iff.1 h
    obtain ⟨ops', hops', hcons⟩ := Option.bind_eq_some_iff.1 hrest
    cases hcons
    obtain ⟨found, -, rfl⟩ := Option.map_eq_some_iff.1 hcreate
    rw [List.flatMap_cons, List.flatMap_cons, ih hops']
    exact List.map_append.symm

/-! ## The loop over the operations -/

/-- A method that is not described under its path gets an entry of its own. -/
theorem entries_addOperation {doc : Doc P} {path method : Str} (h : ¬ doc.Describes path method)
    (spec : SpecOp P) :
    (entries (doc.addOperation path method spec)).Perm ((path, spec) :: entries doc) := by
  have hflat : ∀ (d : Dict Str (PathItem (vocabulary P))) (item : PathItem (vocabulary P)),
      Dict.get? path d = some item → method.map Char.toLower ∉ Dict.keys item.operations →
      ((Dict.set path
        { item with operations := Dict.set (method.map Char.toLower) spec item.operations }
          d).flatMap
        fun item => item.2.operations.map fun op => (item.1, op.2)).Perm
      ((path, spec) :: d.flatMap fun item => item.2.operations.map fun op => (item.1, op.2)) := by
    intro d item
    induction d with
    | nil => exact fun hget => by cases hget
    | cons e d ih =>
      intro hget hnew
      rw [Dict.get?_cons] at hget
      rw [Dict.set_cons]
      split at hget
      · rename_i heq
        cases hget
        rw [if_pos heq, List.flatMap_cons, List.flatMap_cons, Dict.set_of_not_mem hnew,
          List.map_append, heq, List.append_assoc]
        exact List.perm_middle
      · rename_i hne
        rw [if_neg hne, List.flatMap_cons, List.flatMap_cons]
        exact ((ih hget hnew).append_left _).trans List.perm_middle
  unfold entries OpenAPI.addOperation
  -- a new path, or a path that is there and gets one more method
  cases hget : Dict.get? path doc.paths with
  | none =>
    have hnot : path ∉ Dict.keys doc.paths := by
      rw [← Dict.isSome_get?_iff, hget]
      simp
    dsimp only
    rw [Dict.set_of_not_mem hnot, List.flatMap_append]
    exact List.perm_append_comm
  | some item => exact hflat doc.paths item hget fun hmem => h ⟨item, hget, hmem⟩

/-- What is described after an operation was added was so before, or is that operation. -/
theorem describes_of_addOperation {doc : Doc P} {path method path' method' : Str} {spec : SpecOp P}
    (h : (doc.addOperation path method spec).Describes path' method') :
    doc.Describes path' method' ∨ path' = path ∧ method'.map Char.toLower =
      method.map Char.toLower := by
  obtain ⟨item, hitem, hmem⟩ := h
  unfold OpenAPI.addOperation at hitem
  -- the entry of the path has been replaced, with one method more than it had
  by_cases hpath : path = path'
  · cases hget : Dict.get? path doc.paths with
    | none =>
      rw [hget, hpath] at hitem
      dsimp only at hitem
      rw [Dict.get?_set_self] at hitem
      cases hitem
      exact .inr ⟨hpath.symm, List.mem_singleton.1 hmem⟩
    | some existing =>
      rw [hget, hpath] at hitem
      dsimp only at hitem
      rw [Dict.get?_set_self] at hitem
      cases hitem
      rcases Dict.mem_keys_set.1 hmem with heq | hold
      · exact .inr ⟨hpath.symm, heq⟩
      · exact .inl ⟨existing, by rw [← hpath, hget], hold⟩
  -- every other path has the entry that it had
  · refine .inl ⟨item, ?_, hmem⟩
    cases hget : Dict.get? path doc.paths with
    | none =>
      rw [hget] at hitem
      dsimp only at hitem
      rwa [Dict.get?_set, if_neg hpath] at hitem
    | some existing =>
      rw [hget] at hitem
      dsimp only at hitem
      rwa [Dict.get?_set, if_neg hpath] at hitem

theorem components_addOperation (doc : Doc P) (path method : Str) (spec : SpecOp P) :
    (doc.addOperation path method spec).components = doc.components := by
  unfold OpenAPI.addOperation
  cases Dict.get? path doc.paths with
  | none => rfl
  | some existing => rfl

/-- Methods differ in lower case. -/
theorem toLower_value_injective {m m' : HTTPMethod}
    (h : m.value.map Char.toLower = m'.value.map Char.toLower) : m = m' := by
  cases m <;> cases m' <;> first | rfl | exact absurd h (by decide)

/-- The loop gives each registration an entry. -/
theorem addOperations_spec {app : List (OpMiddleware P)} {regs : List (Registration P)}
    {ops : List (Document.Operation (vocabulary P))} {doc : Doc P} {registry : P.Registry}
    {out : Doc P × P.Registry} (hops : regs.mapM (·.create U app) = some ops)
    (hkeys : (regs.map fun r => (r.method, r.path)).Nodup)
    (hnew : ∀ r ∈ regs, ¬ doc.Describes r.path r.method.value)
    (h : Config.addOperations ops doc registry = some out) :
    ∃ built : List (Registration P × (URITemplate × List (Resolved P)) × SpecOp P),
      built.map (·.1) = regs ∧ (∀ b ∈ built, Built U app b.1 b.2.1 b.2.2) ∧
      (entries out.1).Perm (built.map (fun b => (b.1.path, b.2.2)) ++ entries doc) ∧
      out.1.components = doc.components := by
  induction regs generalizing ops doc registry with
  | nil =>
    cases hops
    cases h
    exact ⟨[], rfl, fun _ hb => absurd hb List.not_mem_nil, List.Perm.refl _, rfl⟩
  | cons r regs ih =>
    rw [List.mapM_cons] at hops
    obtain ⟨op, hcreate, hrest⟩ := Option.bind_eq_some_iff.1 hops
    obtain ⟨ops', hops', hcons⟩ := Option.bind_eq_some_iff.1 hrest
    cases hcons
    obtain ⟨spec, hspec, hloop⟩ := Config.addOperations_cons h
    obtain ⟨found, hbuilt⟩ := built_of_buildSpec hcreate hspec
    have hop : op.path = r.path ∧ op.method = r.method := by
      obtain ⟨found', -, rfl⟩ := Option.map_eq_some_iff.1 hcreate
      exact ⟨rfl, rfl⟩
    rw [hop.1, hop.2] at hloop
    rw [List.map_cons, List.nodup_cons] at hkeys
    obtain ⟨hfirst, hkeys⟩ := hkeys
    -- the pairs differ, so the later registrations still find their places free
    have hnew' : ∀ r' ∈ regs,
        ¬ (doc.addOperation r.path r.method.value spec.1).Describes r'.path r'.method.value := by
      intro r' hr' hdescribes
      rcases describes_of_addOperation hdescribes with hold | ⟨hpath, hmethod⟩
      · exact hnew r' (List.mem_cons_of_mem _ hr') hold
      · refine hfirst (List.mem_map.2 ⟨r', hr', ?_⟩)
        rw [hpath, toLower_value_injective hmethod]
    obtain ⟨built, hmap, hall, hperm, hcomponents⟩ := ih hops' hkeys hnew' hloop
    refine ⟨(r, found, spec.1) :: built, by rw [List.map_cons, hmap],
      List.forall_mem_cons.2 ⟨hbuilt, hall⟩, ?_,
        hcomponents.trans (components_addOperation _ _ _ _)⟩
    refine hperm.trans
      (((entries_addOperation (hnew r List.mem_cons_self) spec.1).append_left _).trans ?_)
    exact List.perm_middle

/-! ## The app -/

/-- What an app is built with. -/
structure App (P : Parts) where
  info : P.Info
  middlewares : List (OpMiddleware P)
  registry : P.Registry
  components : P.Registry → Option (Dict Str P.Schema)
  toJson : Doc P → Option (List UInt8)

namespace App

def config (app : App P) : Config (vocabulary P) :=
  ⟨app.info, app.middlewares.map OpMiddleware.toMiddleware, app.registry,
    app.components, app.toJson⟩

/-- The decorators of the app, in turn, and `openapi_doc`. -/
def openapiDoc (U : Unicode) (app : App P) (regs : List (Registration P)) : Option (Doc P) :=
  (regs.mapM fun r : Registration P => r.create U app.middlewares).bind app.config.generate

/-- `id` is identity. -/
def Identified (app : App P) (regs : List (Registration P)) : Prop :=
  ∀ mw ∈ allMiddlewares app.middlewares regs, ∀ mw' ∈ allMiddlewares app.middlewares regs,
    mw.id = mw'.id → mw = mw'

end App

/-- The document has an entry for each registration, and the security schemes of the middlewares. -/
theorem openapiDoc_spec {app : App P} {regs : List (Registration P)} {doc : Doc P}
    (hdistinct : (regs.map fun r => (r.method, r.path)).Nodup) (hids : app.Identified regs)
    (h : app.openapiDoc U regs = some doc) :
    ∃ built : List (Registration P × (URITemplate × List (Resolved P)) × SpecOp P),
      built.map (·.1) = regs ∧ (∀ b ∈ built, Built U app.middlewares b.1 b.2.1 b.2.2) ∧
      (entries doc).Perm (built.map fun b => (b.1.path, b.2.2)) ∧
      ∀ n, n ∈ Dict.keys (securitySchemes doc) ↔
        ∃ mw ∈ allMiddlewares app.middlewares regs, n ∈ mw.schemes := by
  obtain ⟨ops, hops, hgenerate⟩ := Option.bind_eq_some_iff.1 h
  obtain ⟨root, hroot, hpart⟩ := Option.bind_eq_some_iff.1 hgenerate
  obtain ⟨part, hloop, hschemas⟩ := Option.bind_eq_some_iff.1 hpart
  obtain ⟨schemas, -, rfl⟩ := Option.map_eq_some_iff.1 hschemas
  have hmiddlewares : app.config.allMiddlewares ops =
      (allMiddlewares app.middlewares regs).map OpMiddleware.toMiddleware := by
    unfold Config.allMiddlewares allMiddlewares
    rw [middlewares_created hops, List.map_append]
    rfl
  obtain ⟨called, hcalled, hsub, hall⟩ :=
    distinct_toMiddleware [] (allMiddlewares app.middlewares regs)
  rw [hmiddlewares, hcalled] at hroot
  obtain ⟨hpaths, hnames⟩ := addsRoot_all called _ _ root.1 root.2 hroot
  -- The root document describes no operation yet.
  have hnew : ∀ r ∈ regs, ¬ root.1.Describes r.path r.method.value := by
    rintro r - ⟨item, hitem, -⟩
    rw [hpaths] at hitem
    cases hitem
  obtain ⟨built, hmap, hbuilt, hperm, hcomponents⟩ := addOperations_spec hops hdistinct hnew hloop
  refine ⟨built, hmap, hbuilt, ?_, fun n => ?_⟩
  · have hnone : entries root.1 = [] := by
      unfold entries
      rw [hpaths]
      rfl
    rw [hnone, List.append_nil] at hperm
    exact hperm
  -- The schemas are merged in last, and touch no security scheme.
  · have hsame : securitySchemes (part.1.withComponents { part.1.components with
        schemas := Dict.setAll part.1.components.schemas schemas }) = securitySchemes root.1 := by
      unfold securitySchemes OpenAPI.withComponents
      dsimp only
      rw [hcomponents]
    rw [hsame, hnames]
    constructor
    · rintro (hnone | hmem)
      · cases hnone
      · obtain ⟨mw, hmw, hn⟩ := List.mem_flatMap.1 hmem
        exact ⟨mw, hsub mw hmw, hn⟩
    · rintro ⟨mw, hmw, hn⟩
      obtain ⟨mw', hmw', hid⟩ := hall mw hmw List.not_mem_nil
      rw [← hids mw' (hsub mw' hmw') mw hmw hid] at hn
      exact .inr (List.mem_flatMap.2 ⟨mw', hmw', hn⟩)

/-- The keys of the parameters, and the names of those for the path, off the slots. -/
theorem keys_eq {spec : SpecOp P} {slots : List Slot}
    (h : (fieldsOf spec).parameters.map Parameter.slot = slots) :
    (fieldsOf spec).parameters.map (fun p => (p.name, p.location)) =
      slots.map fun s => (s.name, s.location) := by
  rw [← h, List.map_map]
  rfl

theorem pathNames_eq {spec : SpecOp P} {slots : List Slot}
    (h : (fieldsOf spec).parameters.map Parameter.slot = slots) :
    pathNames spec = (slots.filter (·.location = .path)).map (·.name) := by
  rw [← h, List.filter_map, List.map_map]
  rfl

/-- Names of one place are distinct where names with places are. -/
theorem nodup_pathNames {slots : List Slot} (h : (slots.map fun s => (s.name, s.location)).Nodup) :
    ((slots.filter (·.location = .path)).map (·.name)).Nodup := by
  have hkeys : ((slots.filter (·.location = .path)).map fun s => (s.name, s.location)).Nodup :=
    h.sublist (List.filter_sublist.map _)
  have hnames : (slots.filter (·.location = .path)).map (fun s => (s.name, s.location)) =
      ((slots.filter (·.location = .path)).map (·.name)).map fun n => (n, Location.path) := by
    rw [List.map_map]
    refine List.map_congr_left fun s hs => ?_
    have hpath : s.location = .path := by simpa using (List.mem_filter.1 hs).2
    rw [Function.comp_apply, hpath]
  rw [hnames] at hkeys
  exact hkeys.of_map _

/-- For every app and all handlers, templates, methods and middlewares that are registered, with
different pairs of method and path: the document is well-formed if and only if they are
coordinated. -/
theorem wellFormed_iff {app : App P} {regs : List (Registration P)} {doc : Doc P}
    (hdistinct : (regs.map fun r => (r.method, r.path)).Nodup) (hids : app.Identified regs)
    (h : app.openapiDoc U regs = some doc) : WellFormed U doc ↔
    Coordinated U app.middlewares regs := by
  obtain ⟨built, hmap, hbuilt, hperm, hschemes⟩ := openapiDoc_spec hdistinct hids h
  -- The entries of the document are those built from the registrations, in some order.
  have hentry : ∀ e, e ∈ entries doc ↔ ∃ b ∈ built, (b.1.path, b.2.2) = e := by
    intro e
    rw [hperm.mem_iff, List.mem_map]
  have hreg : ∀ r ∈ regs, ∀ found, r.resolve U = some found →
      ∃ spec, Built U app.middlewares r found spec ∧ (r.path, spec) ∈ entries doc := by
    intro r hr found hfound
    rw [← hmap] at hr
    obtain ⟨b, hb, rfl⟩ := List.mem_map.1 hr
    have hb' := hbuilt b hb
    cases hb'.resolve.symm.trans hfound
    exact ⟨b.2.2, hb', (hentry _).2 ⟨b, hb, rfl⟩⟩
  have hids : ((entries doc).map fun e => e.2.operation_id).Perm
      (regs.map fun r => operationId r.method r.path r.fn) := by
    refine (hperm.map _).trans (List.Perm.of_eq ?_)
    rw [← hmap, List.map_map, List.map_map]
    exact List.map_congr_left fun b hb => (hbuilt b hb).id
  constructor
  -- From the document: each registration has its entry there.
  · intro hwf
    have honce : ∀ r ∈ regs, ∀ found, r.resolve U = some found →
        ((allSlots app.middlewares r found.2).map fun s => (s.name, s.location)).Nodup := by
      intro r hr found hfound
      obtain ⟨spec, hspec, hmem⟩ := hreg r hr found hfound
      rw [← keys_eq hspec.slots]
      exact hwf.parameters _ hmem
    refine ⟨hids.nodup_iff.1 hwf.operationIds, honce, fun r hr found hfound => ?_,
      fun r hr found hfound req hreq n hn => ?_⟩
    · obtain ⟨spec, hspec, hmem⟩ := hreg r hr found hfound
      refine (pathParameters_iff hfound (honce r hr found hfound)).1 ?_
      obtain ⟨template, hparse, -, hnames, hrequired⟩ := hwf.pathParameters _ hmem
      cases hparse.symm.trans (bound_iff hfound).1
      rw [← pathNames_eq hspec.slots, ← hspec.slots]
      refine ⟨hnames, fun s hs hpath => ?_⟩
      obtain ⟨p, hp, rfl⟩ := List.mem_map.1 hs
      exact hrequired p hp hpath
    · obtain ⟨spec, hspec, hmem⟩ := hreg r hr found hfound
      rw [← hspec.security] at hreq
      exact (hschemes n).1 (hwf.security _ hmem req hreq n hn)
  -- From the registrations: each entry was built from one of them.
  · intro hc
    have hmem : ∀ b ∈ built, b.1 ∈ regs := by
      intro b hb
      rw [← hmap]
      exact List.mem_map_of_mem hb
    refine ⟨hids.nodup_iff.2 hc.ids, fun e he => ?_, fun e he => ?_, fun e he req hreq n hn => ?_⟩
    · obtain ⟨b, hb, rfl⟩ := (hentry e).1 he
      rw [keys_eq (hbuilt b hb).slots]
      exact hc.once b.1 (hmem b hb) b.2.1 (hbuilt b hb).resolve
    · obtain ⟨b, hb, rfl⟩ := (hentry e).1 he
      have hresolve := (hbuilt b hb).resolve
      have honce := hc.once b.1 (hmem b hb) b.2.1 hresolve
      obtain ⟨hnames, hrequired⟩ :=
        (pathParameters_iff hresolve honce).2 (hc.path b.1 (hmem b hb) b.2.1 hresolve)
      refine ⟨b.2.1.1, (bound_iff hresolve).1, ?_, ?_, fun p hp hpath => ?_⟩
      · rw [pathNames_eq (hbuilt b hb).slots]
        exact nodup_pathNames honce
      · rw [pathNames_eq (hbuilt b hb).slots]
        exact hnames
      · refine hrequired p.slot ?_ hpath
        rw [← (hbuilt b hb).slots]
        exact List.mem_map_of_mem hp
    · obtain ⟨b, hb, rfl⟩ := (hentry e).1 he
      rw [(hbuilt b hb).security] at hreq
      exact (hschemes n).2 (hc.schemes b.1 (hmem b hb) b.2.1 (hbuilt b hb).resolve req hreq n hn)

/-- Types and schemas that are given by their names. -/
def byName : Parts where
  T := Str
  str := "str".toList
  Response := Str
  Schema := Str
  Info := Str
  Registry := List Str
  isBodyType t := t = "Book".toList
  isCtx t := t = "HTTPReqCtx".toList
  isAny t := t = "Any".toList
  unwrapOptional _ := none
  schemaFor t registry := some (t, registry)
  string := "str".toList
  permissive := "Any".toList

/-- One response, a string. -/
def answers (code : Str) (registry : List Str) : Option (Dict Str Str × List Str) :=
  some ([(code, "str".toList)], registry)

/-- A handler whose parameters are strings. -/
def handler (name : Str) (params : List Str) : Function byName :=
  ⟨some name, [], params.map fun param => ⟨⟨param, some "str".toList, false⟩, false, []⟩,
    answers "200".toList⟩

def bearer : OpMiddleware byName :=
  httpBearerAuth 0 "bearerAuth".toList "JWT".toList [] (answers "401".toList)

def basic : OpMiddleware byName := httpBasicAuth 1 "basicAuth".toList [] (answers "401".toList)

def appWith (middlewares : List (OpMiddleware byName)) : App byName :=
  ⟨"books".toList, middlewares, [], fun _ => some [], fun _ => some []⟩

/-- Anyone may read a book; it takes a token to delete it. -/
def books : List (Registration byName) :=
  [⟨.get, "/books/\x7bid\x7d".toList, handler "get_book".toList ["id".toList, "fields".toList], []⟩,
    ⟨.delete, "/books/\x7bid\x7d".toList, handler "delete_book".toList ["id".toList], [bearer]⟩]

theorem wellFormed_books :
    ∃ doc, (appWith []).openapiDoc asciiOnly books = some doc ∧ WellFormed asciiOnly doc := by
  have hsome : ((appWith []).openapiDoc asciiOnly books).isSome = true := by decide
  obtain ⟨doc, hdoc⟩ := Option.isSome_iff_exists.1 hsome
  have hone : ∀ mw ∈ allMiddlewares (appWith []).middlewares books, mw = bearer := fun mw hmw =>
    List.mem_singleton.1 hmw
  have hids : (appWith []).Identified books :=
    fun mw hmw mw' hmw' _ => (hone mw hmw).trans (hone mw' hmw').symm
  exact ⟨doc, hdoc, (wellFormed_iff (by decide) hids hdoc).2 (by decide)⟩

/-- Two modules with a handler of the name `index` each. -/
def indexTwice : List (Registration byName) :=
  [⟨.get, "/users".toList, handler "index".toList [], []⟩,
    ⟨.get, "/items".toList, handler "index".toList [], []⟩]

/-- An operation that takes a token or a password. -/
def eitherAuth : List (Registration byName) := [⟨.get, "/me".toList, handler "me".toList [], []⟩]

/-- Two operations have one id; and behind both authentications an operation has the header
`Authorization` twice. -/
theorem two_handlers_of_one_name :
    (∃ doc, (appWith []).openapiDoc asciiOnly indexTwice = some doc ∧ ¬ WellFormed asciiOnly doc) ∧
      ∃ doc, (appWith [bearer, basic]).openapiDoc asciiOnly eitherAuth = some doc ∧
        ¬ WellFormed asciiOnly doc := by
  have hindex : ∀ doc ∈ (appWith []).openapiDoc asciiOnly indexTwice,
      ¬ ((entries doc).map fun e => e.2.operation_id).Nodup := by decide
  have hauth : ∀ doc ∈ (appWith [bearer, basic]).openapiDoc asciiOnly eitherAuth,
      ¬ ∀ e ∈ entries doc,
        ((fieldsOf e.2).parameters.map fun p => (p.name, p.location)).Nodup := by decide
  have hindexSome : ((appWith []).openapiDoc asciiOnly indexTwice).isSome = true := by decide
  have hauthSome :
      ((appWith [bearer, basic]).openapiDoc asciiOnly eitherAuth).isSome = true := by decide
  obtain ⟨doc, hdoc⟩ := Option.isSome_iff_exists.1 hindexSome
  obtain ⟨doc', hdoc'⟩ := Option.isSome_iff_exists.1 hauthSome
  exact ⟨⟨doc, hdoc, fun hwf => hindex doc hdoc hwf.operationIds⟩,
    ⟨doc', hdoc', fun hwf => hauth doc' hdoc' hwf.parameters⟩⟩

end LocalPost.Openapi.Signature
