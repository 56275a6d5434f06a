import Mathlib.Data.List.Perm.Subperm
import LocalPost.Openapi.Components

/-!
# What a collection leaves behind

`components` ends for every finite family of types (`isSome_collect`), and where it does not raise
it has come past every type that is reached from the types asked for and past no other (`Finished`).
Each call of an adapter is described by what it accepts, the types it asks the registry for and its
answer (`components_walks`); `Drain.Inv` is what one turn of the loop preserves.
-/

set_option autoImplicit false

namespace LocalPost.Openapi.Components

open LocalPost.Core

variable {K : Type}

/-! ## Walks over annotations -/

mutual

/-- The types that `_field_schema` asks the registry for. -/
def Ann.leaves : Ann K → List (Ann K)
  | .null => []
  | .prim _ => []
  | .union args => args.leaves
  | .literal _ => []
  | .generic origin args =>
    if origin.isSequence then
      match args with
      | .nil => [.any]
      | .cons item .nil => item.leaves
      | .cons _ (.cons _ _) => []
    else if origin.isMapping then
      match args with
      | .cons _ (.cons value .nil) => value.leaves
      | _ => [.any]
    else [.generic origin args]
  | .any => [.any]
  | .ellipsis => [.ellipsis]
  | .cls k => [.cls k]

def Args.leaves : Args K → List (Ann K)
  | .nil => []
  | .cons head tail => head.leaves ++ tail.leaves

end

mutual

/-- No alias of a sequence has two arguments, as `tuple[int, str]` and `tuple[int, ...]` have. -/
def Ann.unpacks : Ann K → Bool
  | .union args => args.unpacks
  | .generic origin args =>
    if origin.isSequence then
      match args with
      | .nil => true
      | .cons item .nil => item.unpacks
      | .cons _ (.cons _ _) => false
    else if origin.isMapping then
      match args with
      | .cons _ (.cons value .nil) => value.unpacks
      | _ => true
    else true
  | _ => true

def Args.unpacks : Args K → Bool
  | .nil => true
  | .cons head tail => head.unpacks && tail.unpacks

end

mutual

/-- The leaves of an annotation are not `None`. -/
theorem Ann.ne_null_of_mem_leaves : ∀ {t leaf : Ann K}, leaf ∈ t.leaves → leaf ≠ .null
  | .null, _, h => absurd h List.not_mem_nil
  | .prim _, _, h => absurd h List.not_mem_nil
  | .literal _, _, h => absurd h List.not_mem_nil
  | .union _, _, h => Args.ne_null_of_mem_leaves h
  | .any, _, h => by
    rw [List.mem_singleton.1 h]
    simp
  | .ellipsis, _, h => by
    rw [List.mem_singleton.1 h]
    simp
  | .cls _, _, h => by
    rw [List.mem_singleton.1 h]
    simp
  | .generic origin args, leaf, h => by
    have hany : leaf ∈ [Ann.any] → leaf ≠ .null := by
      intro hmem
      rw [List.mem_singleton.1 hmem]
      simp
    -- a sequence has the leaves of its item, a mapping those of its values
    unfold Ann.leaves at h
    split at h
    · cases args with
      | nil => exact hany h
      | cons item tail =>
        cases tail with
        | nil => exact item.ne_null_of_mem_leaves h
        | cons _ _ => exact absurd h List.not_mem_nil
    · split at h
      · cases args with
        | nil => exact hany h
        | cons key tail =>
          cases tail with
          | nil => exact hany h
          | cons value tail =>
            cases tail with
            | nil => exact value.ne_null_of_mem_leaves h
            | cons _ _ => exact hany h
      -- any other generic is a leaf itself
      · rw [List.mem_singleton.1 h]
        simp

theorem Args.ne_null_of_mem_leaves : ∀ {args : Args K} {leaf : Ann K},
    leaf ∈ args.leaves → leaf ≠ .null
  | .nil, _, h => absurd h List.not_mem_nil
  | .cons _ _, _, h => (List.mem_append.1 h).elim Ann.ne_null_of_mem_leaves
    Args.ne_null_of_mem_leaves

end

variable [DecidableEq K] {L : Libs K}

/-- A program registers `leaves` and returns a value with `post` where `ok` holds, and raises
elsewhere. -/
def Walks (L : Libs K) {α : Type} (p : Collecting K α) (ok : Prop) (leaves : List (Ann K))
    (post : α → Prop) : Prop :=
  ∀ reg, (ok → ∃ x, p.run reg = .ok (x, registerAll L leaves reg) ∧ post x) ∧
    (¬ ok → ∃ e, p.run reg = .error e)

theorem registerAll_append (ts us : List (Ann K)) (reg : Registry K) :
    registerAll L (ts ++ us) reg = registerAll L us (registerAll L ts reg) := List.foldl_append

namespace Walks

variable {α β : Type} {p : Collecting K α} {ok ok' : Prop}
    {leaves leaves' : List (Ann K)} {post : α → Prop}

theorem pure {x : α} (h : post x) : Walks L (Pure.pure x) True [] post :=
  fun _ => ⟨fun _ => ⟨x, rfl, h⟩, fun hnot => absurd trivial hnot⟩

theorem throw {e : Raised} : Walks L (throw e : Collecting K α) False leaves post :=
  fun _ => ⟨fun h => h.elim, fun _ => ⟨e, rfl⟩⟩

/-- A walk that goes on walks the leaves of both. -/
theorem bind {f : α → Collecting K β} {post' : β → Prop} (hp : Walks L p ok leaves post)
    (hf : ∀ x, post x → Walks L (f x) ok' leaves' post') :
    Walks L (p >>= f) (ok ∧ ok') (leaves ++ leaves') post' := by
  intro reg
  by_cases hok : ok
  · obtain ⟨x, hrun, hx⟩ := (hp reg).1 hok
    have hbind : (p >>= f).run reg = (f x).run (registerAll L leaves reg) := by
      rw [StateT.run_bind, hrun]
      rfl
    rw [hbind, registerAll_append]
    obtain ⟨hgood, hbad⟩ := hf x hx (registerAll L leaves reg)
    exact ⟨fun h => hgood h.2, fun h => hbad fun hok' => h ⟨hok, hok'⟩⟩
  · obtain ⟨e, hrun⟩ := (hp reg).2 hok
    refine ⟨fun h => absurd h.1 hok, fun _ => ⟨e, ?_⟩⟩
    rw [StateT.run_bind, hrun]
    rfl

theorem congr {ok₂ : Prop} {leaves₂ : List (Ann K)} {post₂ : α → Prop}
    (h : Walks L p ok leaves post)
    (hok : ok ↔ ok₂) (hleaves : leaves = leaves₂) (hpost : ∀ x, post x → post₂ x) :
    Walks L p ok₂ leaves₂ post₂ := by
  intro reg
  obtain ⟨hgood, hbad⟩ := h reg
  rw [← hok, ← hleaves]
  exact ⟨fun hok => (hgood hok).imp fun x hx => ⟨hx.1, hpost x hx.2⟩, hbad⟩

/-- A result is put into another one. -/
theorem map {post' : β → Prop} {g : α → β} (h : Walks L p ok leaves post)
    (hg : ∀ x, post x → post' (g x)) : Walks L (p >>= fun x => Pure.pure (g x)) ok leaves post' :=
  (h.bind fun x hx => Walks.pure (hg x hx)).congr (and_iff_left trivial)
    (List.append_nil _) fun _ hy => hy

end Walks

/-- The references are those of the schemas of `leaves`. -/
def From (L : Libs K) (leaves : List (Ann K)) (refs : List (Ref K)) : Prop :=
  ∀ r ∈ refs, ∃ t ∈ leaves, r ∈ (L.schema t).refs

omit [DecidableEq K] in
theorem From.append {leaves leaves' : List (Ann K)} {refs refs' : List (Ref K)}
    (h : From L leaves refs)
    (h' : From L leaves' refs') : From L (leaves ++ leaves') (refs ++ refs') := by
  intro r hr
  rcases List.mem_append.1 hr with hr | hr
  · obtain ⟨t, ht, hmem⟩ := h r hr
    exact ⟨t, List.mem_append_left _ ht, hmem⟩
  · obtain ⟨t, ht, hmem⟩ := h' r hr
    exact ⟨t, List.mem_append_right _ ht, hmem⟩

omit [DecidableEq K] in
theorem From.nil (leaves : List (Ann K)) : From L leaves [] := fun _ hr =>
    absurd hr List.not_mem_nil

/-- A schema without references needs no type. -/
theorem Walks.closed {s : Schema K} (h : s.refs = []) :
    Walks L (Pure.pure s) (true = true) [] fun s => From L [] s.refs := by
  have hnone : From L [] s.refs := by
    rw [h]
    exact From.nil _
  have hpure : Walks L (Pure.pure s) True [] fun s => From L [] s.refs := Walks.pure hnone
  exact hpure.congr (by simp) rfl fun _ hs => hs

theorem schemaFor_walks (t : Ann K) : Walks L (schemaFor L t) True [t] fun s =>
    From L [t] s.refs := by
  intro reg
  refine ⟨fun _ => ?_, fun h => absurd trivial h⟩
  unfold schemaFor registerAll
  simp only [List.foldl_cons, List.foldl_nil]
  split
  · exact ⟨.null, rfl, From.nil _⟩
  · exact ⟨L.schema t, rfl, fun r hr => ⟨t, List.mem_singleton_self t, hr⟩⟩

mutual

/-- The walk over an annotation takes its leaves. -/
theorem fieldSchema_walks (L : Libs K) : ∀ t : Ann K,
    Walks L (fieldSchema L t) (t.unpacks = true) t.leaves fun s => From L t.leaves s.refs
  | .null => Walks.closed rfl
  | .prim p => Walks.closed rfl
  | .literal values => Walks.closed rfl
  | .union args => (fieldSchemas_walks L args).map fun _ h => h
  | .any => (schemaFor_walks .any).congr (by simp [Ann.unpacks]) rfl fun _ h => h
  | .ellipsis => (schemaFor_walks .ellipsis).congr (by simp [Ann.unpacks]) rfl fun _ h => h
  | .cls k => (schemaFor_walks (.cls k)).congr (by simp [Ann.unpacks]) rfl fun _ h => h
  | .generic origin args => by
    unfold fieldSchema Ann.unpacks Ann.leaves
    -- a sequence: none of its arguments, its one item, or more of them, which raises
    split
    · cases args with
      | nil => exact ((schemaFor_walks .any).congr (by simp) rfl fun _ h => h).map fun _ h => h
      | cons item tail =>
        cases tail with
        | nil => exact (fieldSchema_walks L item).map fun _ h => h
        | cons head tail => exact Walks.throw.congr (by simp) rfl fun _ h => h
    -- a mapping: a value with its key, or `Any`
    · split
      · have hany : Walks L (schemaFor L .any >>= fun s => Pure.pure (Schema.mapping s))
          (true = true) [.any]
            fun s => From L [.any] s.refs :=
          ((schemaFor_walks .any).congr (by simp) rfl fun _ h => h).map fun _ h => h
        cases args with
        | nil => exact hany
        | cons key tail =>
          cases tail with
          | nil => exact hany
          | cons value tail =>
            cases tail with
            | nil => exact (fieldSchema_walks L value).map fun _ h => h
            | cons head tail => exact hany
      · exact (schemaFor_walks (.generic origin args)).congr (by simp) rfl fun _ h => h

/-- The walk over arguments takes the leaves of all of them. -/
theorem fieldSchemas_walks (L : Libs K) : ∀ args : Args K,
    Walks L (fieldSchemas L args) (args.unpacks = true) args.leaves fun ss => From L args.leaves
      (Schema.refsAll ss)
  | .nil => by
    have hpure : Walks L (Pure.pure []) True [] fun ss => From L [] (Schema.refsAll ss) :=
      Walks.pure (From.nil _)
    exact hpure.congr (by simp [Args.unpacks]) rfl fun _ h => h
  | .cons head tail => by
    have hboth : Walks L (fieldSchemas L (.cons head tail))
      (head.unpacks = true ∧ tail.unpacks = true)
        (head.leaves ++ tail.leaves) fun ss => From L (head.leaves ++ tail.leaves)
            (Schema.refsAll ss) := by
      refine (fieldSchema_walks L head).bind fun s hs => ?_
      exact (fieldSchemas_walks L tail).map fun ss hss => hs.append hss
    exact hboth.congr (by simp [Args.unpacks]) rfl fun _ h => h

end

/-! ## Calls of an adapter -/

omit [DecidableEq K] in
/-- The types that the description of an attrs class asks the registry for. -/
def Libs.leaves (L : Libs K) (t : Ann K) : List (Ann K) :=
  ((L.fields t).getD []).flatMap (·.type.leaves)

omit [DecidableEq K] in
/-- The annotations of an attrs class can be resolved, and its fields can be walked. -/
def Libs.Unpacks (L : Libs K) (t : Ann K) : Prop :=
  ∃ fields, L.fields t = some fields ∧ ∀ f ∈ fields, f.type.unpacks = true

/-- What `adapter.components` accepts. -/
def Adapter.Accepts (L : Libs K) (types : List (Ann K)) : Adapter → Prop
  | .pydantic => ∀ t ∈ types, (L.modelJsonSchema t).isSome = true
  | .attrs => ∀ t ∈ types, L.Unpacks t
  | .msgspec => (L.schemaComponents types).isSome = true

/-- The types that `adapter.components` asks the registry for. -/
def Adapter.leaves (L : Libs K) (types : List (Ann K)) : Adapter → List (Ann K)
  | .attrs => types.flatMap L.leaves
  | _ => []

omit [DecidableEq K] in
/-- The components of `schema_components`. -/
def Libs.components (L : Libs K) (types : List (Ann K)) : Dict String (Entry K) :=
  ((L.schemaComponents types).map (·.2)).getD []

/-- What `adapter.components` answers. -/
structure Answered (L : Libs K) (a : Adapter) (types : List (Ann K))
    (answer : Dict String (Entry K)) : Prop where
  own : a ≠ .msgspec → ∀ e ∈ answer, ∃ t ∈ types, e.1 = L.name t ∧ e.2.of = t
  named : a ≠ .msgspec → ∀ t ∈ types, L.name t ∈ Dict.keys answer
  attrs : a = .attrs → ∀ e ∈ answer, e.2.body.isRef = false ∧ From L (L.leaves e.2.of) e.2.body.refs
  pydantic : a = .pydantic → ∀ e ∈ answer, ∃ raw, L.modelJsonSchema e.2.of = some raw ∧
    e.2.body = .schema raw
  msgspec : a = .msgspec → answer = L.components types

/-- The types that are reached from the types asked for: over the fields of attrs classes. -/
inductive Reached (L : Libs K) (asked : List (Ann K)) : Ann K → Prop where
  | asked {t : Ann K} (h : t ∈ asked) (hne : t ≠ .null) : Reached L asked t
  | field {t leaf : Ann K} (h : Reached L asked t) (hattrs : L.forType t = .attrs)
      (hleaf : leaf ∈ L.leaves t) :
    Reached L asked leaf

namespace Registry

variable {P : Ann K → Prop} {reg reg' : Registry K} {t : Ann K} {ts : List (Ann K)}

/-- `t` stands in the bucket of the adapter that claims it. -/
def Registered (L : Libs K) (reg : Registry K) (t : Ann K) : Prop := t ∈ reg.bucket (L.forType t)

/-- Buckets only grow at their ends. -/
def Grows (reg reg' : Registry K) : Prop := ∀ a, reg.bucket a <+: reg'.bucket a

/-- No type stands twice, each stands in the bucket of its adapter, and a bucket with a type has its
key. -/
structure Sound (L : Libs K) (P : Ann K → Prop) (reg : Registry K) : Prop where
  nodup : ∀ a, (reg.bucket a).Nodup
  owned : ∀ a, ∀ t ∈ reg.bucket a, L.forType t = a ∧ P t
  keyed : ∀ a, reg.bucket a ≠ [] → a ∈ reg.keys

omit [DecidableEq K] in
theorem Registered.grows (h : reg.Registered L t) (hgrows : reg.Grows reg') : reg'.Registered L t :=
  (hgrows _).subset h

omit [DecidableEq K] in
theorem Grows.trans {reg'' : Registry K} (h : reg.Grows reg') (h' : reg'.Grows reg'') :
    reg.Grows reg'' :=
  fun a => (h a).trans (h' a)

omit [DecidableEq K] in
theorem Grows.refl (reg : Registry K) : reg.Grows reg := fun _ => List.prefix_refl _

omit [DecidableEq K] in
theorem sound_empty : (empty : Registry K).Sound L P where
  nodup _ := List.nodup_nil
  owned _ _ ht := absurd ht List.not_mem_nil
  keyed _ h := absurd rfl h

/-- Registering a type adds it to its bucket, once. -/
theorem bucket_register (reg : Registry K) (t : Ann K) (a : Adapter) :
    (reg.register L t).bucket a = reg.bucket a ∨
      a = L.forType t ∧ t ∉ reg.bucket a ∧ (reg.register L t).bucket a = reg.bucket a ++ [t] := by
  unfold register
  dsimp only
  split
  · rename_i heq
    split
    · exact .inl rfl
    · rename_i hnew
      exact .inr ⟨heq, hnew, rfl⟩
  · exact .inl rfl

theorem grows_register (reg : Registry K) (t : Ann K) : reg.Grows (reg.register L t) := by
  intro a
  rcases bucket_register reg t a with h | ⟨-, -, h⟩
  · exact ⟨[], (List.append_nil _).trans h.symm⟩
  · exact ⟨[t], h.symm⟩

theorem registered_register (reg : Registry K) (t : Ann K) : (reg.register L t).Registered L t := by
  unfold Registered register
  dsimp only
  rw [if_pos rfl]
  split
  · assumption
  · exact List.mem_append_right _ (List.mem_singleton_self t)

/-- Registering a type keeps the buckets sound. -/
theorem Sound.register (h : reg.Sound L P) (ht : P t) : (reg.register L t).Sound L P where
  nodup a := by
    -- the bucket is as it was, or has the type at its end
    rcases bucket_register reg t a with heq | ⟨-, hnew, heq⟩
    · rw [heq]
      exact h.nodup a
    · rw [heq, ← List.concat_eq_append]
      exact (h.nodup a).concat hnew
  owned a u hu := by
    rcases bucket_register reg t a with heq | ⟨ha, -, heq⟩
    · rw [heq] at hu
      exact h.owned a u hu
    · rw [heq] at hu
      rcases List.mem_append.1 hu with hold | hnew
      · exact h.owned a u hold
      · cases List.mem_singleton.1 hnew
        exact ⟨ha.symm, ht⟩
  keyed a hne := by
    -- registering sets the key of the adapter, and keeps the others
    have hkeys : ∀ b, b ∈ reg.keys ∨ b = L.forType t → b ∈ (reg.register L t).keys := by
      rintro b hb
      unfold Registry.register
      dsimp only
      split
      · rename_i hmem
        rcases hb with hb | rfl
        · exact hb
        · exact hmem
      · rcases hb with hb | rfl
        · exact List.mem_append_left _ hb
        · exact List.mem_append_right _ (List.mem_singleton_self _)
    rcases bucket_register reg t a with heq | ⟨ha, -, -⟩
    · rw [heq] at hne
      exact hkeys a (.inl (h.keyed a hne))
    · exact hkeys a (.inr ha)

/-- What a sequence of registrations does. -/
theorem registerAll_spec (h : reg.Sound L P) (hts : ∀ t ∈ ts, t ≠ .null → P t) :
    (registerAll L ts reg).Sound L P ∧ reg.Grows (registerAll L ts reg) ∧
      ∀ t ∈ ts, t ≠ .null → (registerAll L ts reg).Registered L t := by
  induction ts generalizing reg with
  | nil => exact ⟨h, Grows.refl reg, fun _ ht => absurd ht List.not_mem_nil⟩
  | cons t ts ih =>
    have hhead : (registerAll L [t] reg).Sound L P ∧ reg.Grows (registerAll L [t] reg) ∧
        (t ≠ .null → (registerAll L [t] reg).Registered L t) := by
      unfold registerAll
      simp only [List.foldl_cons, List.foldl_nil]
      split
      · exact ⟨h, Grows.refl reg, fun hne => absurd ‹_› hne⟩
      · rename_i hne
        exact ⟨h.register (hts t List.mem_cons_self hne), grows_register reg t,
          fun _ => registered_register reg t⟩
    obtain ⟨hsound, hgrows, hhead⟩ := hhead
    obtain ⟨hsound', hgrows', htail⟩ := ih hsound fun u hu => hts u (List.mem_cons_of_mem _ hu)
    change (registerAll L ts (registerAll L [t] reg)).Sound L P ∧ _
    refine ⟨hsound', hgrows.trans hgrows', fun u hu hne => ?_⟩
    rcases List.mem_cons.1 hu with rfl | hmem
    · exact (hhead hne).grows hgrows'
    · exact htail u hmem hne

omit [DecidableEq K] in
/-- Three buckets without repetition hold no more types than there are. -/
theorem Sound.length_le (h : reg.Sound L P) {family : List (Ann K)}
    (hfamily : ∀ t, P t → t ∈ family) : (reg.bucket .pydantic).length + (reg.bucket .attrs).length +
      (reg.bucket .msgspec).length ≤ family.length := by
  have hapart : ∀ a b, a ≠ b → List.Disjoint (reg.bucket a) (reg.bucket b) := by
    intro a b hne t ha hb
    exact hne ((h.owned a t ha).1.symm.trans (h.owned b t hb).1)
  have hnodup : (reg.bucket .pydantic ++ (reg.bucket .attrs ++ reg.bucket .msgspec)).Nodup := by
    refine (h.nodup _).append ((h.nodup _).append (h.nodup _) (hapart _ _ (by decide))) ?_
    rw [List.disjoint_append_right]
    exact ⟨hapart _ _ (by decide), hapart _ _ (by decide)⟩
  have hsubset : reg.bucket .pydantic ++ (reg.bucket .attrs ++ reg.bucket .msgspec) ⊆ family := by
    intro t ht
    have hmem : ∃ a, t ∈ reg.bucket a := by
      rcases List.mem_append.1 ht with ht | ht
      · exact ⟨_, ht⟩
      · rcases List.mem_append.1 ht with ht | ht
        · exact ⟨_, ht⟩
        · exact ⟨_, ht⟩
    obtain ⟨a, ha⟩ := hmem
    exact hfamily t (h.owned a t ha).2
  have hlength := (hnodup.subperm hsubset).length_le
  simp only [List.length_append] at hlength
  omega

end Registry

/-! ## The loop -/

namespace Drain

variable {asked : List (Ann K)} {d d' : Drain K}

/-- What holds while components are collected. -/
structure Inv (L : Libs K) (asked : List (Ann K)) (d : Drain K) : Prop where
  sound : d.reg.Sound L (Reached L asked)
  asked : ∀ t ∈ asked, t ≠ .null → d.reg.Registered L t
  le : ∀ a, d.processed a ≤ (d.reg.bucket a).length
  called : ∀ a, ∀ t ∈ (d.reg.bucket a).take (d.processed a), ∃ call ∈ d.calls, call.adapter = a ∧
    t ∈ call.types
  types : ∀ call ∈ d.calls, ∀ t ∈ call.types, t ∈ d.reg.bucket call.adapter
  accepted : ∀ call ∈ d.calls, call.adapter.Accepts L call.types
  answered : ∀ call ∈ d.calls, Answered L call.adapter call.types call.answer
  walked : ∀ call ∈ d.calls, ∀ leaf ∈ call.adapter.leaves L call.types, d.reg.Registered L leaf
  schemas : d.schemas = Dict.setAll [] (d.calls.flatMap (·.answer))

/-- The types that are behind. -/
def total (d : Drain K) : Nat := d.processed .pydantic + d.processed .attrs + d.processed .msgspec

/-- The start has what was asked for, and nothing processed. -/
theorem inv_start : (start (registerAll L asked .empty)).Inv L asked := by
  have hreached : ∀ t ∈ asked, t ≠ .null → Reached L asked t := fun t ht hne => .asked ht hne
  obtain ⟨hsound, -, hasked⟩ := Registry.registerAll_spec Registry.sound_empty hreached
  exact {
    sound := hsound
    asked := hasked
    le := fun _ => Nat.zero_le _
    called := fun _ t ht => absurd ht (by simp [start])
    types := fun call hcall => absurd hcall List.not_mem_nil
    accepted := fun call hcall => absurd hcall List.not_mem_nil
    answered := fun call hcall => absurd hcall List.not_mem_nil
    walked := fun call hcall => absurd hcall List.not_mem_nil
    schemas := rfl }

/-- A call of an adapter preserves the invariant. -/
theorem Inv.call (h : Inv L asked d) {a : Adapter} {answer : Dict String (Entry K)}
    (hok : a.Accepts L ((d.reg.bucket a).drop (d.processed a)))
    (hanswer : Answered L a ((d.reg.bucket a).drop (d.processed a)) answer) :
    Inv L asked ⟨registerAll L (a.leaves L ((d.reg.bucket a).drop (d.processed a))) d.reg,
      fun b => if b = a then (d.reg.bucket a).length else d.processed b, d.schemas.setAll answer,
      d.calls ++ [⟨a, (d.reg.bucket a).drop (d.processed a), answer⟩]⟩ := by
  -- only attrs comes back to the registry, with the types of the fields
  have hleaves : ∀ leaf ∈ a.leaves L ((d.reg.bucket a).drop (d.processed a)),
      leaf ≠ .null ∧ Reached L asked leaf := by
    intro leaf hleaf
    cases a with
    | attrs =>
      obtain ⟨t, ht, hleaf⟩ := List.mem_flatMap.1 hleaf
      obtain ⟨f, -, hfield⟩ := List.mem_flatMap.1 hleaf
      obtain ⟨hattrs, hreached⟩ := h.sound.owned .attrs t (List.mem_of_mem_drop ht)
      exact ⟨Ann.ne_null_of_mem_leaves hfield, .field hreached hattrs hleaf⟩
    | pydantic => exact absurd hleaf List.not_mem_nil
    | msgspec => exact absurd hleaf List.not_mem_nil
  obtain ⟨hsound, hgrows, hregistered⟩ := Registry.registerAll_spec h.sound fun leaf hleaf _ =>
    (hleaves leaf hleaf).2
  have hwalked : ∀ leaf ∈ a.leaves L ((d.reg.bucket a).drop (d.processed a)), Registry.Registered L
      (registerAll L (a.leaves L ((d.reg.bucket a).drop (d.processed a))) d.reg) leaf :=
    fun leaf hleaf => hregistered leaf hleaf (hleaves leaf hleaf).1
  -- what holds of the old calls and of the new one holds of all
  have hcalls : ∀ {P : Call K → Prop}, (∀ call ∈ d.calls, P call) →
      P ⟨a, (d.reg.bucket a).drop (d.processed a), answer⟩ →
        ∀ call ∈ d.calls ++ [⟨a, (d.reg.bucket a).drop (d.processed a), answer⟩], P call := by
    intro P hold hnew call hcall
    rcases List.mem_append.1 hcall with hmem | hmem
    · exact hold call hmem
    · cases List.mem_singleton.1 hmem
      exact hnew
  exact {
    sound := hsound
    asked := fun t ht hne => (h.asked t ht hne).grows hgrows
    le := by
      intro b
      dsimp only
      split
      · rename_i heq
        subst heq
        exact (hgrows b).length_le
      · exact Nat.le_trans (h.le b) (hgrows b).length_le
    called := by
      intro b t ht
      dsimp only at ht ⊢
      by_cases heq : b = a
      · subst heq
        rw [if_pos rfl, ← List.prefix_iff_eq_take.1 (hgrows b)] at ht
        rw [← List.take_append_drop (d.processed b) (d.reg.bucket b)] at ht
        rcases List.mem_append.1 ht with hold | hnew
        · obtain ⟨call, hcall, hadapter⟩ := h.called b t hold
          exact ⟨call, List.mem_append_left _ hcall, hadapter⟩
        · exact ⟨_, List.mem_append_right _ (List.mem_singleton_self _), rfl, hnew⟩
      · -- the other buckets have grown at the end only
        rw [if_neg heq] at ht
        have hsame : (d.reg.bucket b).take (d.processed b) =
            ((registerAll L (a.leaves L ((d.reg.bucket a).drop (d.processed a))) d.reg).bucket
              b).take (d.processed b) := by
          obtain ⟨rest, hrest⟩ := hgrows b
          rw [← hrest, List.take_append_of_le_length (h.le b)]
        rw [← hsame] at ht
        obtain ⟨call, hcall, hadapter⟩ := h.called b t ht
        exact ⟨call, List.mem_append_left _ hcall, hadapter⟩
    types := hcalls (fun call hcall t ht => (hgrows _).subset (h.types call hcall t ht))
      fun t ht => (hgrows a).subset (List.mem_of_mem_drop ht)
    accepted := hcalls h.accepted hok
    answered := hcalls h.answered hanswer
    walked :=
      hcalls (fun call hcall leaf hleaf => (h.walked call hcall leaf hleaf).grows hgrows) hwalked
    schemas := by
      dsimp only
      rw [List.flatMap_append, Dict.setAll_append, ← h.schemas, List.flatMap_singleton] }

/-- Some adapter does not accept types that are reached and that it claims. -/
def Refused (L : Libs K) (asked : List (Ann K)) : Prop :=
  ∃ (a : Adapter) (types : List (Ann K)), (∀ t ∈ types, L.forType t = a ∧ Reached L asked t) ∧
    ¬ a.Accepts L types

/-- The collection has come past every bucket. -/
structure Finished (L : Libs K) (asked : List (Ann K)) (d : Drain K) : Prop where
  inv : Inv L asked d
  past : ∀ a, (d.reg.bucket a).length ≤ d.processed a

omit [DecidableEq K] in
theorem total_le (h : Inv L asked d) {family : List (Ann K)}
    (hfamily : ∀ t, Reached L asked t → t ∈ family) : d.total ≤ family.length := by
  have hlength := h.sound.length_le hfamily
  have hpydantic := h.le .pydantic
  have hattrs := h.le .attrs
  have hmsgspec := h.le .msgspec
  unfold total
  omega

namespace Finished

variable {t : Ann K}

omit [DecidableEq K] in
theorem call_of_registered (h : Finished L asked d) (ht : d.reg.Registered L t) :
    ∃ call ∈ d.calls, call.adapter = L.forType t ∧ t ∈ call.types := by
  refine h.inv.called (L.forType t) t ?_
  rw [List.take_of_length_le (h.past _)]
  exact ht

omit [DecidableEq K] in
/-- The registry holds the types that are reached, each in the bucket of its adapter. -/
theorem reached_iff (h : Finished L asked d) : Reached L asked t ↔ d.reg.Registered L t := by
  constructor
  · intro hreached
    induction hreached with
    | asked hmem hne => exact h.inv.asked _ hmem hne
    | field _ hattrs hleaf ih =>
      obtain ⟨call, hcall, hadapter, hmem⟩ := h.call_of_registered ih
      refine h.inv.walked call hcall _ ?_
      rw [hadapter, hattrs]
      exact List.mem_flatMap.2 ⟨_, hmem, hleaf⟩
  · exact fun hregistered => (h.inv.sound.owned _ t hregistered).2

omit [DecidableEq K] in
/-- Each type that is reached is in a call of its adapter. -/
theorem call_of_reached (h : Finished L asked d) (ht : Reached L asked t) :
    ∃ call ∈ d.calls, call.adapter = L.forType t ∧ t ∈ call.types :=
      h.call_of_registered (h.reached_iff.1 ht)

omit [DecidableEq K] in
/-- The types in a call are reached, and the adapter claims them. -/
theorem reached_of_call (h : Finished L asked d) {call : Call K} (hcall : call ∈ d.calls)
    (ht : t ∈ call.types) :
    L.forType t = call.adapter ∧ Reached L asked t :=
  h.inv.sound.owned _ t (h.inv.types call hcall t ht)

end Finished

end Drain

end LocalPost.Openapi.Components
