import LocalPost.Openapi.Batches

/-!
# References and components

A collection of components is `Closed` when every reference that has been emitted is to a component
of the type that it stands for, every component is a description, and no name stands for two types.
Nothing in the program keeps the names of the adapters apart: attrs and pydantic classes are named
by their `__name__`, which two of them may share, and a msgspec type may get another name in the
call for the bucket than in the call for it alone. The definitions of the models inside a pydantic
model are dropped. A library that raises ends the collection. `closed_iff` is the exact condition,
`Distinct`, on the types asked for and the libraries.
-/

set_option autoImplicit false

namespace LocalPost.Openapi.Components

open LocalPost.Core

variable {K : Type}

/-! ## What is asked of a collection -/

/-- A reference in what `schema_for` has returned for a type of the registry, or in a component that
an adapter has returned. -/
def Emitted (L : Libs K) (d : Drain K) (r : Ref K) : Prop :=
  (∃ a, ∃ t ∈ d.reg.bucket a, r ∈ (L.schema t).refs) ∨ ∃ call ∈ d.calls,
    ∃ e ∈ call.answer, r ∈ e.2.body.refs

/-- Every reference has an entry, which is of the very type; every component that has been returned
is a description; and one name is for one type. -/
structure Closed (L : Libs K) (d : Drain K) : Prop where
  resolved : ∀ r, Emitted L d r → ∃ e, Dict.get? r.name d.schemas = some e ∧ e.of = r.of
  described : ∀ call ∈ d.calls, ∀ e ∈ call.answer, e.2.body.isRef = false
  apart : ∀ call ∈ d.calls, ∀ call' ∈ d.calls, ∀ e ∈ call.answer, ∀ e' ∈ call'.answer, e.1 = e'.1 →
    e.2.of = e'.2.of

/-- A reference by the name under which an adapter describes its type: the `__name__` of a class of
attrs or pydantic that is reached, or the name in the call for a batch of msgspec types. -/
def Named [DecidableEq K] (L : Libs K) (asked : List (Ann K)) (r : Ref K) : Prop :=
  (Reached L asked r.of ∧ L.forType r.of ≠ .msgspec ∧ r.name = L.name r.of) ∨
    ∃ g, Batch L asked .msgspec g ∧ ∃ e ∈ L.components g, e.1 = r.name ∧ e.2.of = r.of

/-- The condition: the annotations of the attrs classes can be resolved and their fields walked, and
msgspec and pydantic can describe their types; the classes of attrs and pydantic have different
names, which msgspec gives to no other type, and msgspec gives one name to one type over the
batches; a name that msgspec gives in the call for a single type is one under which the type is
described; and a pydantic model is not recursive, and refers to models that are described. -/
structure Distinct [DecidableEq K] (L : Libs K) (asked : List (Ann K)) : Prop where
  unpacks : ∀ t, Reached L asked t → L.forType t = .attrs → L.Unpacks t
  introspected : ∀ t, Reached L asked t → L.forType t = .msgspec →
    (L.schemaComponents [t]).isSome = true
  modelled : ∀ t, Reached L asked t → L.forType t = .pydantic → (L.modelJsonSchema t).isSome = true
  own : ∀ x y, Reached L asked x → Reached L asked y → L.forType x ≠ .msgspec →
    L.forType y ≠ .msgspec → L.name x = L.name y → x = y
  foreign : ∀ x, Reached L asked x → L.forType x ≠ .msgspec →
    ∀ g, Batch L asked .msgspec g → ∀ e ∈ L.components g, e.1 = L.name x → e.2.of = x
  alike : ∀ g, Batch L asked .msgspec g → ∀ g', Batch L asked .msgspec g' →
    ∀ e ∈ L.components g, ∀ e' ∈ L.components g', e.1 = e'.1 → e.2.of = e'.2.of
  alone : ∀ t, Reached L asked t → L.forType t = .msgspec → ∀ r ∈ (L.schema t).refs, Named L asked r
  nested : ∀ t, Reached L asked t → L.forType t = .pydantic →
    ∀ raw, L.modelJsonSchema t = some raw → ∀ r ∈ raw.refs, Named L asked r
  flat : ∀ t, Reached L asked t → L.forType t = .pydantic →
    ∀ raw, L.modelJsonSchema t = some raw → raw.isRef = false

/-! ## The collection that has come to its end -/

variable [DecidableEq K] {L : Libs K} {asked : List (Ann K)} {d : Drain K} {t : Ann K}

omit [DecidableEq K] in
/-- attrs and pydantic classes are referred to by their names. -/
theorem schema_own (h : L.forType t ≠ .msgspec) : L.schema t = .ref ⟨L.name t, t⟩ := by
  unfold Libs.schema
  cases hadapter : L.forType t with
  | msgspec => exact absurd hadapter h
  | attrs => rfl
  | pydantic => rfl

namespace Drain.Finished

variable (h : Finished L asked d)
  (hrun : ∃ n, d.agenda = Nat.iterate (Agenda.pass L) n (Agenda.start L asked))
include h

omit [DecidableEq K] in
/-- What `schema_for` has returned for a reached type counts. -/
theorem emitted_schema (ht : Reached L asked t) {r : Ref K} (hr : r ∈ (L.schema t).refs) :
    Emitted L d r :=
  .inl ⟨_, t, h.reached_iff.1 ht, hr⟩

omit [DecidableEq K] in
theorem emitted_own (ht : Reached L asked t) (hown : L.forType t ≠ .msgspec) :
    Emitted L d ⟨L.name t, t⟩ := by
  refine h.emitted_schema ht ?_
  rw [schema_own hown]
  exact List.mem_singleton_self _

include hrun in
/-- A batch of msgspec types and what it is answered. -/
theorem batch_answer {g : List (Ann K)} (hg : Batch L asked .msgspec g) :
    ∃ call ∈ d.calls, call.adapter = .msgspec ∧ call.answer = L.components g := by
  obtain ⟨call, hcall, hadapter, rfl⟩ := (h.batch_iff hrun).1 hg
  exact ⟨call, hcall, hadapter, (h.inv.answered call hcall).msgspec hadapter⟩

omit [DecidableEq K] in
/-- What the dictionary has for a name is what some adapter has answered for it. -/
theorem get?_mem {n : String} {e : Entry K} (he : Dict.get? n d.schemas = some e) :
    ∃ call ∈ d.calls, (n, e) ∈ call.answer := by
  rw [h.inv.schemas] at he
  rcases Dict.get?_setAll_mem he with hnone | hmem
  · cases hnone
  · exact List.mem_flatMap.1 hmem

include hrun in
/-- Each answer is for a reached class of the adapter by its name, or in the call for a batch. -/
theorem answer_cases {call : Call K} (hcall : call ∈ d.calls) {e : String × Entry K}
    (he : e ∈ call.answer) :
    (Reached L asked e.2.of ∧ L.forType e.2.of = call.adapter ∧ call.adapter ≠ .msgspec ∧
      e.1 = L.name e.2.of) ∨
      call.adapter = .msgspec ∧ ∃ g, Batch L asked .msgspec g ∧ e ∈ L.components g := by
  have hanswered := h.inv.answered call hcall
  by_cases hadapter : call.adapter = .msgspec
  · rw [hanswered.msgspec hadapter] at he
    exact .inr ⟨hadapter, _, (h.batch_iff hrun).2 ⟨call, hcall, hadapter, rfl⟩, he⟩
  · obtain ⟨t, ht, hname, rfl⟩ := hanswered.own hadapter e he
    obtain ⟨htype, hreached⟩ := h.reached_of_call hcall ht
    exact .inl ⟨hreached, htype, hadapter, hname⟩

include hrun in
/-- A type is described under a name when an answer has the name for it. -/
theorem named_iff {r : Ref K}
    (hown : ∀ x y, Reached L asked x → Reached L asked y → L.forType x ≠ .msgspec →
    L.forType y ≠ .msgspec → L.name x = L.name y → x = y) :
    Named L asked r ↔ ∃ call ∈ d.calls, ∃ e ∈ call.answer, e.1 = r.name ∧ e.2.of = r.of := by
  constructor
  · rintro (⟨hreached, hadapter, hname⟩ | ⟨g, hg, e, he, hname, hof⟩)
    · obtain ⟨call, hcall, hcalled, hmem⟩ := h.call_of_reached hreached
      have hnot : call.adapter ≠ .msgspec := fun hms => hadapter (hcalled.symm.trans hms)
      have hkey := (h.inv.answered call hcall).named hnot _ hmem
      obtain ⟨e, he, hkey⟩ := List.mem_map.1 hkey
      refine ⟨call, hcall, e, he, hkey.trans hname.symm, ?_⟩
      rcases h.answer_cases hrun hcall he with ⟨hreached', htype, -, hname'⟩ | ⟨hms, -⟩
      · exact hown _ _ hreached' hreached (fun hms => hnot (htype.symm.trans hms)) hadapter
          (hname'.symm.trans hkey)
      · exact absurd hms hnot
    · obtain ⟨call, hcall, -, hanswer⟩ := h.batch_answer hrun hg
      rw [← hanswer] at he
      exact ⟨call, hcall, e, he, hname, hof⟩
  · rintro ⟨call, hcall, e, he, hname, hof⟩
    rcases h.answer_cases hrun hcall he with ⟨hreached, htype, hadapter, hkey⟩ | ⟨-, g, hg, hmem⟩
    · rw [hof] at hreached htype hkey
      exact .inl ⟨hreached, fun hms => hadapter (htype.symm.trans hms), hname.symm.trans hkey⟩
    · exact .inr ⟨g, hg, e, hmem, hname, hof⟩

include hrun in
/-- The component of a reached model. -/
theorem own_answer (hown : ∀ x y, Reached L asked x → Reached L asked y → L.forType x ≠ .msgspec →
    L.forType y ≠ .msgspec → L.name x = L.name y → x = y) (ht : Reached L asked t)
    (hadapter : L.forType t = .pydantic) :
    ∃ call ∈ d.calls, ∃ e ∈ call.answer, ∃ raw, L.modelJsonSchema t = some raw ∧
      e.2.body = .schema raw := by
  obtain ⟨call, hcall, hcalled, hmem⟩ := h.call_of_reached ht
  rw [hadapter] at hcalled
  have hanswered := h.inv.answered call hcall
  have hnot : call.adapter ≠ .msgspec := by
    rw [hcalled]
    simp
  obtain ⟨e, he, hkey⟩ := List.mem_map.1 (hanswered.named hnot _ hmem)
  refine ⟨call, hcall, e, he, ?_⟩
  obtain ⟨raw, hraw, hbody⟩ := hanswered.pydantic hcalled e he
  rcases h.answer_cases hrun hcall he with ⟨hreached, htype, -, hname⟩ | ⟨hms, -⟩
  · have hsame : e.2.of = t := hown _ _ hreached ht (fun hms => hnot (htype.symm.trans hms))
      (by rw [hadapter]; simp) (hname.symm.trans hkey)
    rw [hsame] at hraw
    exact ⟨raw, hraw, hbody⟩
  · exact absurd hms hnot

include hrun in
/-- A closed collection meets the condition. -/
theorem distinct (hlib : L.Documented) (hclosed : Closed L d) : Distinct L asked := by
  have hown : ∀ x y, Reached L asked x → Reached L asked y → L.forType x ≠ .msgspec →
    L.forType y ≠ .msgspec →
      L.name x = L.name y → x = y := by
    intro x y hx hy hxown hyown hname
    obtain ⟨e, he, hof⟩ := hclosed.resolved _ (h.emitted_own hx hxown)
    obtain ⟨e', he', hof'⟩ := hclosed.resolved _ (h.emitted_own hy hyown)
    dsimp only at he he'
    rw [hname, he'] at he
    cases he
    exact hof.symm.trans hof'
  -- what a reference finds in the components is in the answer of a call
  have hnamed : ∀ r, Emitted L d r → Named L asked r := by
    intro r hr
    obtain ⟨e, he, hof⟩ := hclosed.resolved r hr
    obtain ⟨call, hcall, hmem⟩ := h.get?_mem he
    exact (h.named_iff hrun hown).2 ⟨call, hcall, _, hmem, rfl, hof⟩
  have haccepted : ∀ t, Reached L asked t → ∃ types, t ∈ types ∧ (L.forType t).Accepts L types := by
    intro t ht
    obtain ⟨call, hcall, hcalled, hmem⟩ := h.call_of_reached ht
    refine ⟨call.types, hmem, ?_⟩
    rw [← hcalled]
    exact h.inv.accepted call hcall
  refine {
    unpacks := fun t ht hadapter => ?_
    introspected := fun t ht hadapter => ?_
    modelled := fun t ht hadapter => ?_
    own := hown
    foreign := fun x hx hxown g hg e he hname => ?_
    alike := fun g hg g' hg' e he e' he' hname => ?_
    alone := fun t ht _ r hr => hnamed r (h.emitted_schema ht hr)
    nested := fun t ht hadapter raw hraw r hr => ?_
    flat := fun t ht hadapter raw hraw => ?_ }
  · obtain ⟨types, hmem, haccepts⟩ := haccepted t ht
    rw [hadapter] at haccepts
    exact haccepts t hmem
  · obtain ⟨types, hmem, haccepts⟩ := haccepted t ht
    rw [hadapter] at haccepts
    exact (hlib.raises types).1 haccepts t hmem
  · obtain ⟨types, hmem, haccepts⟩ := haccepted t ht
    rw [hadapter] at haccepts
    exact haccepts t hmem
  · obtain ⟨e', he', hof⟩ := hclosed.resolved _ (h.emitted_own hx hxown)
    obtain ⟨call', hcall', hmem'⟩ := h.get?_mem he'
    obtain ⟨call, hcall, -, hanswer⟩ := h.batch_answer hrun hg
    rw [← hanswer] at he
    exact (hclosed.apart call hcall call' hcall' e he _ hmem' hname).trans hof
  · obtain ⟨call, hcall, -, hanswer⟩ := h.batch_answer hrun hg
    obtain ⟨call', hcall', -, hanswer'⟩ := h.batch_answer hrun hg'
    rw [← hanswer] at he
    rw [← hanswer'] at he'
    exact hclosed.apart call hcall call' hcall' e he e' he' hname
  · obtain ⟨call, hcall, e, he, raw', hraw', hbody⟩ := h.own_answer hrun hown ht hadapter
    cases hraw.symm.trans hraw'
    refine hnamed r (.inr ⟨call, hcall, e, he, ?_⟩)
    rw [hbody]
    exact hr
  · obtain ⟨call, hcall, e, he, raw', hraw', hbody⟩ := h.own_answer hrun hown ht hadapter
    cases hraw.symm.trans hraw'
    have hdescribed := hclosed.described call hcall e he
    rw [hbody] at hdescribed
    exact hdescribed

include hrun in
/-- A collection that meets the condition is closed. -/
theorem closed (hlib : L.Documented) (hd : Distinct L asked) : Closed L d := by
  have hnot : ∀ {call : Call K} {x : Ann K}, L.forType x = call.adapter → call.adapter ≠ .msgspec →
      L.forType x ≠ .msgspec := fun htype hadapter hms => hadapter (htype.symm.trans hms)
  -- an entry is of an own type or of a group: four cases for two entries of one name
  have hapart : ∀ call ∈ d.calls, ∀ call' ∈ d.calls, ∀ e ∈ call.answer, ∀ e' ∈ call'.answer,
      e.1 = e'.1 → e.2.of = e'.2.of := by
    intro call hcall call' hcall' e he e' he' hname
    rcases h.answer_cases hrun hcall he with ⟨hx, htype, hadapter, hkey⟩ | ⟨-, g, hg, hmem⟩
    · rcases h.answer_cases hrun hcall' he' with
        ⟨hx', htype', hadapter', hkey'⟩ | ⟨-, g', hg', hmem'⟩
      · exact hd.own _ _ hx hx' (hnot htype hadapter) (hnot htype' hadapter')
          (hkey.symm.trans (hname.trans hkey'))
      · exact (hd.foreign _ hx (hnot htype hadapter) g' hg' e' hmem' (hname.symm.trans hkey)).symm
    · rcases h.answer_cases hrun hcall' he' with
        ⟨hx', htype', hadapter', hkey'⟩ | ⟨-, g', hg', hmem'⟩
      · exact hd.foreign _ hx' (hnot htype' hadapter') g hg e hmem (hname.trans hkey')
      · exact hd.alike g hg g' hg' e hmem e' hmem' hname
  -- a later call may have overwritten the entry, with one of the same type
  have hresolved : ∀ r, Named L asked r →
      ∃ e, Dict.get? r.name d.schemas = some e ∧ e.of = r.of := by
    intro r hr
    obtain ⟨call, hcall, e, he, hname, hof⟩ := (h.named_iff hrun hd.own).1 hr
    have hkey : r.name ∈ Dict.keys d.schemas := by
      rw [h.inv.schemas, ← hname]
      exact Dict.mem_keys_setAll.2
        (.inr (List.mem_map_of_mem (List.mem_flatMap.2 ⟨call, hcall, he⟩)))
    obtain ⟨e', he'⟩ := Option.isSome_iff_exists.1 (Dict.isSome_get?_iff.2 hkey)
    obtain ⟨call', hcall', hmem'⟩ := h.get?_mem he'
    exact ⟨e', he', (hapart call' hcall' call hcall _ hmem' e he hname.symm).trans hof⟩
  have hschema : ∀ t, Reached L asked t → ∀ r ∈ (L.schema t).refs, Named L asked r := by
    intro t ht r hr
    by_cases hadapter : L.forType t = .msgspec
    · exact hd.alone t ht hadapter r hr
    · rw [schema_own hadapter] at hr
      cases List.mem_singleton.1 hr
      exact .inl ⟨ht, hadapter, rfl⟩
  have hcomponents : ∀ g, Batch L asked .msgspec g → ∀ e ∈ L.components g,
      e.2.body.isRef = false ∧ ∀ r ∈ e.2.body.refs, Named L asked r := by
    intro g hg e he
    have hmem := he
    unfold Libs.components at he
    cases hcall : L.schemaComponents g with
    | none =>
      rw [hcall] at he
      exact absurd he List.not_mem_nil
    | some result =>
      rw [hcall] at he
      refine ⟨hlib.describes g result.1 result.2 hcall e he, fun r hr => ?_⟩
      obtain ⟨e', he', hname, hof⟩ := hlib.closed g result.1 result.2 hcall e he r hr
      refine .inr ⟨g, hg, e', ?_, hname, hof⟩
      unfold Libs.components
      rw [hcall]
      exact he'
  refine ⟨fun r hr => hresolved r ?_, fun call hcall e he => ?_, hapart⟩
  · rcases hr with ⟨a, t, ht, hr⟩ | ⟨call, hcall, e, he, hr⟩
    · exact hschema t (h.inv.sound.owned a t ht).2 r hr
    · rcases h.answer_cases hrun hcall he with ⟨hx, htype, hadapter, -⟩ | ⟨-, g, hg, hmem⟩
      · cases hcalled : call.adapter with
        | attrs =>
          obtain ⟨leaf, hleaf, hr⟩ := ((h.inv.answered call hcall).attrs hcalled e he).2 r hr
          exact hschema leaf (.field hx (htype.trans hcalled) hleaf) r hr
        | pydantic =>
          obtain ⟨raw, hraw, hbody⟩ := (h.inv.answered call hcall).pydantic hcalled e he
          rw [hbody] at hr
          exact hd.nested _ hx (htype.trans hcalled) raw hraw r hr
        | msgspec => exact absurd hcalled hadapter
      · exact (hcomponents g hg e hmem).2 r hr
  · rcases h.answer_cases hrun hcall he with ⟨hx, htype, hadapter, -⟩ | ⟨-, g, hg, hmem⟩
    · cases hcalled : call.adapter with
      | attrs => exact ((h.inv.answered call hcall).attrs hcalled e he).1
      | pydantic =>
        obtain ⟨raw, hraw, hbody⟩ := (h.inv.answered call hcall).pydantic hcalled e he
        rw [hbody]
        exact hd.flat _ hx (htype.trans hcalled) raw hraw
      | msgspec => exact absurd hcalled hadapter
    · exact (hcomponents g hg e hmem).1

end Drain.Finished

/-- An attrs class with a field for the order that it follows, a pydantic model, a struct, and two
attrs classes of different modules with one name. -/
inductive Shop where
  | order
  | customer
  | money
  | orderItem
  | stockItem
  deriving DecidableEq, Repr

namespace Shop

/-- msgspec describes the struct, primitives and `Any`. -/
def supported : Ann Shop → Bool
  | .cls .money => true
  | .prim _ => true
  | .any => true
  | _ => false

/-- The description of a type. -/
def described : Ann Shop → Schema Shop
  | .cls .money => .ref ⟨"Money", .cls .money⟩
  | _ => .foreign []

/-- `__name__` of the classes. -/
def title : Shop → String
  | .order => "Order"
  | .customer => "Customer"
  | .money => "Money"
  | .orderItem => "Item"
  | .stockItem => "Item"

/-- The libraries on the shop. -/
def libs : Libs Shop where
  forType
    | .cls .money => .msgspec
    | .cls .customer => .pydantic
    | .cls _ => .attrs
    | _ => .msgspec
  name
    | .cls k => k.title
    | _ => ""
  fields
    | .cls .order =>
      some [⟨"customer", .cls .customer, false⟩, ⟨"total", .cls .money, false⟩,
        ⟨"follows", .union (.cons (.cls .order) (.cons .null .nil)), true⟩]
    | _ => some []
  modelJsonSchema _ := some (.foreign [])
  schemaComponents ts :=
    if ts.all supported then
      some (ts.map described,
        if .cls .money ∈ ts then [("Money", ⟨.cls .money, .schema (.foreign [])⟩)] else [])
    else none

theorem documented : libs.Documented where
  raises ts := by simp [libs]
  closed ts schemas components h e he r hr := by
    obtain ⟨-, hsome⟩ := Option.ite_none_right_eq_some.1 h
    cases hsome
    split at he
    · cases List.mem_singleton.1 he
      exact absurd hr List.not_mem_nil
    · exact absurd he List.not_mem_nil
  describes ts schemas components h e he := by
    obtain ⟨-, hsome⟩ := Option.ite_none_right_eq_some.1 h
    cases hsome
    split at he
    · cases List.mem_singleton.1 he
      rfl
    · exact absurd he List.not_mem_nil

end Shop

end LocalPost.Openapi.Components
