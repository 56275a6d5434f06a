import LocalPost.Http.Routing.Reference

/-!
# A walk over the table

What a loop over the items of the builder's table finds, whatever order it takes them in: the first
item that matches the path and has the method (`first_hit`), or the methods of all items that match.
Both are the reference's verdict for that order (`Built.decides_hit`, `Built.decides_miss`).
-/

set_option autoImplicit false

namespace LocalPost.Http.Routing

open LocalPost.Core Reference

universe u

variable {H : Type u} {U : Unicode}

/-! ## The Allow header -/

theorem HTTPMethod.ofValue_value (m : HTTPMethod) : HTTPMethod.ofValue m.value = some m := by
  cases m <;> decide

theorem HTTPMethod.value_injective {a b : HTTPMethod} (h : a.value = b.value) : a = b := by
  have ha := HTTPMethod.ofValue_value a
  rw [h, HTTPMethod.ofValue_value] at ha
  exact (Option.some.inj ha).symm

/-- The header lists the methods it was made from. -/
theorem allowOf_formatAllowHeader {methods : List HTTPMethod} (h : methods.Nodup) :
    AllowOf (· ∈ methods) (formatAllowHeader methods) := by
  have htotal : Std.Total fun a b : HTTPMethod => a.value ≤ b.value :=
    ⟨fun a b => le_total a.value b.value⟩
  have htrans : IsTrans HTTPMethod fun a b => a.value ≤ b.value :=
    ⟨fun a b c hab hbc => le_trans hab hbc⟩
  have hperm := List.perm_insertionSort (fun a b : HTTPMethod => a.value ≤ b.value) methods
  refine ⟨_, ?_, fun m => hperm.mem_iff, rfl⟩
  have hsorted := List.pairwise_insertionSort (fun a b : HTTPMethod => a.value ≤ b.value) methods
  refine (hsorted.and (hperm.nodup_iff.2 h)).imp ?_
  rintro a b ⟨hle, hne⟩
  exact lt_of_le_of_ne hle fun heq => hne (HTTPMethod.value_injective heq)

theorem Reference.AllowOf.congr {p q : HTTPMethod → Prop} {header : Str} (h : AllowOf p header)
    (hpq : ∀ m, p m ↔ q m) : AllowOf q header := by
  obtain ⟨methods, hsorted, hmem, rfl⟩ := h
  exact ⟨methods, hsorted, fun m => (hmem m).trans (hpq m), rfl⟩

/-- The methods decide the header. -/
theorem Reference.AllowOf.unique {p : HTTPMethod → Prop} {header header' : Str}
    (h : AllowOf p header) (h' : AllowOf p header') : header = header' := by
  obtain ⟨methods, hsorted, hmem, rfl⟩ := h
  obtain ⟨methods', hsorted', hmem', rfl⟩ := h'
  have hasymm : Std.Antisymm fun a b : HTTPMethod => a.value < b.value :=
    ⟨fun a b hab hba => absurd hab (lt_asymm hba)⟩
  have hnodup : ∀ l : List HTTPMethod, l.Pairwise (fun a b => a.value < b.value) → l.Nodup := by
    intro l hl
    refine hl.imp ?_
    rintro a b hlt rfl
    exact lt_irrefl _ hlt
  have hperm : methods.Perm methods' := by
    rw [List.perm_ext_iff_of_nodup (hnodup _ hsorted) (hnodup _ hsorted')]
    exact fun m => (hmem m).trans (hmem' m).symm
  rw [hperm.eq_of_pairwise' hsorted hsorted']

/-! ## Sets of methods -/

theorem Router.mem_update {allowed methods : List HTTPMethod} {m : HTTPMethod} :
    m ∈ Router.update allowed methods ↔ m ∈ allowed ∨ m ∈ methods := by
  induction methods generalizing allowed with
  | nil => simp [Router.update]
  | cons n methods ih =>
    change m ∈ Router.update (if n ∈ allowed then allowed else allowed ++ [n]) methods ↔ _
    rw [ih, List.mem_cons]
    split
    · rename_i hn
      constructor
      · rintro (h | h)
        · exact .inl h
        · exact .inr (.inr h)
      · rintro (h | rfl | h)
        · exact .inl h
        · exact .inl hn
        · exact .inr h
    · rw [List.mem_append, List.mem_singleton, or_assoc]

theorem Router.nodup_update {allowed methods : List HTTPMethod} (h : allowed.Nodup) :
    (Router.update allowed methods).Nodup := by
  induction methods generalizing allowed with
  | nil => exact h
  | cons n methods ih =>
    change (Router.update (if n ∈ allowed then allowed else allowed ++ [n]) methods).Nodup
    apply ih
    split
    · exact h
    · rename_i hn
      rw [List.nodup_append]
      refine ⟨h, List.nodup_singleton n, fun a ha b hb => ?_⟩
      rw [List.mem_singleton.1 hb]
      rintro rfl
      exact hn ha

/-- An item of the table. -/
abbrev Item (H : Type u) := URITemplate × MethodMap H

/-- The items whose template matches the path. -/
def hits (path : Str) (items : List (Item H)) : List (Item H) :=
  items.filter fun item => (item.1.match? path).isSome

theorem hits_cons_of_none {path : Str} {item : Item H} (h : item.1.match? path = none)
    (items : List (Item H)) : hits path (item :: items) = hits path items := by
  simp [hits, h]

theorem hits_cons_of_some {path : Str} {item : Item H} {args : List (Str × Str)}
    (h : item.1.match? path = some args) (items : List (Item H)) :
    hits path (item :: items) = item :: hits path items := by
  simp [hits, h]

/-- The methods of the items, added to a set. -/
def updateAll (allowed : List HTTPMethod) (items : List (Item H)) : List HTTPMethod :=
  items.foldl (fun s item => Router.update s (Dict.keys item.2)) allowed

theorem mem_updateAll {allowed : List HTTPMethod} {items : List (Item H)} {m : HTTPMethod} :
    m ∈ updateAll allowed items ↔ m ∈ allowed ∨ ∃ item ∈ items, m ∈ Dict.keys item.2 := by
  induction items generalizing allowed with
  | nil => simp [updateAll]
  | cons item items ih =>
    change m ∈ updateAll (Router.update allowed (Dict.keys item.2)) items ↔ _
    rw [ih, Router.mem_update, or_assoc]
    simp

theorem nodup_updateAll {allowed : List HTTPMethod} {items : List (Item H)}
    (h : allowed.Nodup) : (updateAll allowed items).Nodup := by
  induction items generalizing allowed with
  | nil => exact h
  | cons item items ih => exact ih (Router.nodup_update h)

/-! ## The first item that serves a request -/

/-- The walk stops at the item after `pre` with a handler for the method. -/
structure StopsAt (path : Str) (method : Option HTTPMethod) (pre : List (Item H)) (item : Item H)
    (handler : H) (found : RouteMatch) : Prop where
  method_eq : method = some found.method
  template_eq : found.matched_template = item.1
  args_eq : item.1.match? path = some found.path_args
  handler_eq : Dict.get? found.method item.2 = some handler
  passed : ∀ i ∈ pre, (i.1.match? path).isSome = true → Dict.get? found.method i.2 = none

/-- No item that matches has the method. -/
def StopsNowhere (path : Str) (method : Option HTTPMethod) (items : List (Item H)) : Prop :=
  ∀ m, method = some m → ∀ item ∈ hits path items, Dict.get? m item.2 = none

/-- Either the walk stops at a first item that serves the request, or at none. -/
theorem first_hit (path : Str) (method : Option HTTPMethod) (items : List (Item H)) :
    (∃ pre item post handler found, items = pre ++ item :: post ∧
      StopsAt path method pre item handler found) ∨ StopsNowhere path method items := by
  cases method with
  | none => exact .inr fun m hm => by cases hm
  | some m =>
    cases hfind : items.find? fun item =>
        (item.1.match? path).isSome && (Dict.get? m item.2).isSome with
    | none =>
      rw [List.find?_eq_none] at hfind
      refine .inr fun n hn item hitem => ?_
      cases hn
      obtain ⟨hmem, hmatch⟩ := List.mem_filter.1 hitem
      simpa [hmatch] using hfind item hmem
    | some item =>
      obtain ⟨hitem, pre, post, rfl, hpre⟩ := List.find?_eq_some_iff_append.1 hfind
      rw [Bool.and_eq_true] at hitem
      obtain ⟨args, hargs⟩ := Option.isSome_iff_exists.1 hitem.1
      obtain ⟨handler, hhandler⟩ := Option.isSome_iff_exists.1 hitem.2
      refine .inl ⟨pre, item, post, handler, ⟨m, item.1, args⟩, rfl, rfl, rfl, hargs, hhandler, ?_⟩
      intro i hi hmatch
      simpa [hmatch] using hpre i hi

namespace Built

variable {es : List (Entry H)} {paths : Dict URITemplate (MethodMap H)} {items : List (Item H)}
  {path methodStr : Str} {before : URITemplate → URITemplate → Prop}

/-- A template that was registered is in the table. -/
theorem exists_get (h : Built U es paths) {t : URITemplate} (ht : Registered es t) :
    ∃ ms, Dict.get? t paths = some ms :=
  Option.isSome_iff_exists.1 (Dict.isSome_get?_iff.2 ((h.mem_keys t).2 ht))

theorem handler_eq (h : Built U es paths) {t : URITemplate} {ms : MethodMap H}
    (hget : Dict.get? t paths = some ms) (m : HTTPMethod) : handler? es m t = Dict.get? m ms := by
  rw [← h.get, hget, Option.bind_some]

theorem registered_of_get (h : Built U es paths) {t : URITemplate} {ms : MethodMap H}
    (hget : Dict.get? t paths = some ms) : Registered es t :=
  (h.mem_keys t).1 (Dict.isSome_get?_iff.1 (by rw [hget]; rfl))

theorem mem_iff_get (h : Built U es paths) (hperm : items.Perm paths) {t : URITemplate}
    {ms : MethodMap H} : (t, ms) ∈ items ↔ Dict.get? t paths = some ms := by
  rw [Dict.get?_eq_some_iff h.nodup]
  exact hperm.mem_iff

theorem mem_hits (h : Built U es paths) (hperm : items.Perm paths) {t : URITemplate}
    {ms : MethodMap H} :
    (t, ms) ∈ hits path items ↔ Dict.get? t paths = some ms ∧ Matches t path := by
  rw [hits, List.mem_filter, h.mem_iff_get hperm]
  rfl

/-- The item at which the walk stops is the first in its order. -/
theorem decides_hit (h : Built U es paths) (hperm : items.Perm paths)
    (hsorted : items.Pairwise fun a b => before a.1 b.1) {pre post : List (Item H)} {item : Item H}
    {handler : H} {found : RouteMatch} (hitems : items = pre ++ item :: post)
    (hstop : StopsAt path (HTTPMethod.ofValue methodStr) pre item handler found) :
    Decides es before path methodStr (.handled handler found) := by
  obtain ⟨t, ms⟩ := item
  obtain ⟨m, t', args⟩ := found
  obtain ⟨hm, htemplate, hargs, hhandler, hpassed⟩ := hstop
  change t' = t at htemplate
  subst htemplate
  have hget : Dict.get? t' paths = some ms := by
    rw [← h.mem_iff_get hperm, hitems]
    exact List.mem_append_right _ List.mem_cons_self
  refine ⟨hm, h.registered_of_get hget, hargs, (h.handler_eq hget m).trans hhandler,
    fun u hmatches hu => ?_⟩
  obtain ⟨us, hus⟩ := h.exists_get (registered_of_handler? hu)
  have hmem : (u, us) ∈ pre ++ (t', ms) :: post := hitems ▸ (h.mem_iff_get hperm).2 hus
  rw [h.handler_eq hus] at hu
  rcases List.mem_append.1 hmem with hmem | hmem
  · -- The walk has passed this one, so it has no handler for the method.
    have hnone : Dict.get? m us = none := hpassed _ hmem hmatches
    simp [hnone] at hu
  -- it is the one that was found, or stands behind it in the order
  · rcases List.mem_cons.1 hmem with heq | hmem
    · cases heq
      exact .inl rfl
    · rw [hitems, List.pairwise_append, List.pairwise_cons] at hsorted
      exact .inr (hsorted.2.1.1 _ hmem)

/-- The methods of the items that match are those of the templates that match. -/
theorem exists_hit_iff (h : Built U es paths) (hperm : items.Perm paths) (m : HTTPMethod) :
    (∃ item ∈ hits path items, m ∈ Dict.keys item.2) ↔
      ∃ t, Matches t path ∧ (handler? es m t).isSome = true := by
  constructor
  · rintro ⟨⟨t, ms⟩, hitem, hkey⟩
    obtain ⟨hms, hmatches⟩ := (h.mem_hits hperm).1 hitem
    refine ⟨t, hmatches, ?_⟩
    rw [h.handler_eq hms]
    exact Dict.isSome_get?_iff.2 hkey
  · rintro ⟨t, hmatches, hhandler⟩
    obtain ⟨ms, hms⟩ := h.exists_get (registered_of_handler? hhandler)
    rw [h.handler_eq hms] at hhandler
    exact ⟨(t, ms), (h.mem_hits hperm).2 ⟨hms, hmatches⟩, Dict.isSome_get?_iff.1 hhandler⟩

/-- A walk that stops nowhere although a template matches comes to a 405. -/
theorem decides_miss (h : Built U es paths) (hperm : items.Perm paths) {header : Str}
    (hsome : hits path items ≠ [])
    (hnone : StopsNowhere path (HTTPMethod.ofValue methodStr) items)
    (hallow : AllowOf (fun m => ∃ item ∈ hits path items, m ∈ Dict.keys item.2) header) :
    Decides (H := H) es before path methodStr (.methodNotAllowed header) := by
  refine ⟨fun m t hm hmatches => ?_, ?_, hallow.congr (h.exists_hit_iff hperm)⟩
  · cases hhandler : handler? es m t with
    | none => rfl
    | some handler =>
      obtain ⟨ms, hms⟩ := h.exists_get (registered_of_handler? (by rw [hhandler]; rfl))
      have hmiss : Dict.get? m ms = none :=
        hnone m hm (t, ms) ((h.mem_hits hperm).2 ⟨hms, hmatches⟩)
      rw [h.handler_eq hms, hmiss] at hhandler
      cases hhandler
  · obtain ⟨⟨t, ms⟩, hitem⟩ := List.exists_mem_of_ne_nil _ hsome
    obtain ⟨hms, hmatches⟩ := (h.mem_hits hperm).1 hitem
    exact ⟨t, h.registered_of_get hms, hmatches⟩

theorem decides_notFound (h : Built U es paths) (hperm : items.Perm paths)
    (hnone : hits path items = []) : Decides (H := H) es before path methodStr .notFound := by
  intro t ht hmatches
  obtain ⟨ms, hms⟩ := h.exists_get ht
  have hitem : (t, ms) ∈ hits path items := (h.mem_hits hperm).2 ⟨hms, hmatches⟩
  rw [hnone] at hitem
  cases hitem

/-- Every item of the table has a method. -/
theorem keys_ne_nil (h : Built U es paths) (hperm : items.Perm paths) :
    ∀ item ∈ hits path items, Dict.keys item.2 ≠ [] := by
  rintro ⟨t, ms⟩ hitem
  have hms := ((h.mem_hits hperm).1 hitem).1
  obtain ⟨m, hm⟩ := exists_handler? (h.registered_of_get hms)
  rw [h.handler_eq hms, Dict.isSome_get?_iff] at hm
  exact List.ne_nil_of_mem hm

theorem nodup_keys (h : Built U es paths) (hperm : items.Perm paths) :
    ∀ item ∈ hits path items, (Dict.keys item.2).Nodup := by
  rintro ⟨t, ms⟩ hitem
  exact h.methods_nodup t ms ((h.mem_hits hperm).1 hitem).1

end Built

end LocalPost.Http.Routing
