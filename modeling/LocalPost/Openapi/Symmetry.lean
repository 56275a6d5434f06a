import LocalPost.Openapi.Apps

/-!
# Whether the two apps dispatch alike

Both apps build the same table, and both loops are walks over it. The router takes the items by the
length of their literal prefix, `_match` takes them as they were registered, so the apps select the
same operation exactly when the first registered template that serves a request has the longest
literal prefix among those that do (`dispatch_alike_iff`). `HttpAsyncApp` also refuses a method and
template that are there already, where `Routes.add` replaces the handler.
-/

set_option autoImplicit false

namespace LocalPost.Openapi

open LocalPost.Core LocalPost.Http.Routing LocalPost.Http.Routing.Reference

universe u

variable {H : Type u} {U : Unicode}

/-! ## The tables -/

/-- The bucket that holds a table. -/
def bucketOf (paths : Dict URITemplate (MethodMap H)) : Bucket H :=
  paths.map fun item => (item.1.template, ⟨item.1, item.2⟩)

/-- The bucket of a template is that of its text, where no other template has the same. -/
theorem get?_bucketOf {paths : Dict URITemplate (MethodMap H)} {t : URITemplate}
    (h : ∀ u ∈ Dict.keys paths, u.template = t.template → u = t) :
    Dict.get? t.template (bucketOf paths) = (Dict.get? t paths).map (RouteEntry.mk t) := by
  induction paths with
  | nil => rfl
  | cons item paths ih =>
    rw [Dict.keys_cons, List.forall_mem_cons] at h
    change Dict.get? t.template ((item.1.template, ⟨item.1, item.2⟩) :: bucketOf paths) = _
    rw [Dict.get?_cons, Dict.get?_cons, ih h.2]
    by_cases ht : item.1 = t
    · have heq : item.1.template = t.template := congrArg URITemplate.template ht
      rw [if_pos heq, if_pos ht, ht]
      rfl
    · rw [if_neg fun heq => ht (h.1 heq), if_neg ht]

/-- Setting a template in the buckets is setting its text, where no other template has the same. -/
theorem set_bucketOf {paths : Dict URITemplate (MethodMap H)} {t : URITemplate} (ms : MethodMap H)
    (h : ∀ u ∈ Dict.keys paths, u.template = t.template → u = t) :
    Dict.set t.template ⟨t, ms⟩ (bucketOf paths) = bucketOf (Dict.set t ms paths) := by
  induction paths with
  | nil => rfl
  | cons item paths ih =>
    rw [Dict.keys_cons, List.forall_mem_cons] at h
    change Dict.set t.template _ ((item.1.template, ⟨item.1, item.2⟩) :: bucketOf paths) = _
    rw [Dict.set_cons, Dict.set_cons, ih h.2]
    by_cases ht : item.1 = t
    · have heq : item.1.template = t.template := congrArg URITemplate.template ht
      rw [if_pos heq, if_pos ht]
      rfl
    · rw [if_neg fun heq => ht (h.1 heq), if_neg ht]
      rfl

/-- `add` registers a method and template that are new and refuses the others. -/
theorem addRoute_eq {es : List (Entry H)} {paths : Dict URITemplate (MethodMap H)}
    (h : Built U es paths) {m : HTTPMethod} {t : URITemplate} (handler : H)
    (ht : URITemplate.parse U t.template = some t) :
    addRoute (bucketOf paths) m t handler =
      if (handler? es m t).isSome = true then none
      else some (bucketOf (insertEntry paths (m, t, handler))) := by
  have hkey : ∀ u ∈ Dict.keys paths, u.template = t.template → u = t := by
    intro u hu heq
    have hparse := h.parsed u hu
    rw [heq, ht] at hparse
    exact (Option.some.inj hparse).symm
  rw [addRoute, get?_bucketOf hkey, ← h.get, insertEntry]
  cases hget : Dict.get? t paths with
  | none =>
    simp only [Option.map_none, Option.getD_none, Dict.get?, Option.bind_none, Option.isSome_none,
      set_bucketOf _ hkey]
  | some ms =>
    simp only [Option.map_some, Option.getD_some, Option.bind_some, set_bucketOf _ hkey]

/-- The method and template of a registration. -/
def Entry.key (e : Entry H) : HTTPMethod × URITemplate := (e.1, e.2.1)

/-- There is a handler for a method and a template exactly if they were registered together. -/
theorem isSome_handler?_iff {es : List (Entry H)} {m : HTTPMethod} {t : URITemplate} :
    (handler? es m t).isSome = true ↔ (m, t) ∈ es.map Entry.key := by
  rw [handler?, Option.isSome_map, List.find?_isSome, List.mem_map]
  constructor
  · rintro ⟨e, he, hmt⟩
    rw [decide_eq_true_eq] at hmt
    exact ⟨e, List.mem_reverse.1 he, Prod.ext hmt.1 hmt.2⟩
  · rintro ⟨e, he, heq⟩
    cases heq
    exact ⟨e, List.mem_reverse.2 he, by simp⟩

/-- The registrations of `HttpApp`, one after the other. -/
def addAll (U : Unicode) (regs : List (Registration H)) : Option (Routes H) :=
  regs.foldlM (fun (rs : Routes H) r => rs.add U r.method r.template r.handler) ⟨[]⟩

/-- The registrations of `HttpAsyncApp`, one after the other. -/
def addAllRoutes (U : Unicode) (regs : List (Registration H)) : Option (Bucket H) :=
  regs.foldlM (fun b r => (r.entry U).bind fun e => addRoute b e.1 e.2.1 e.2.2) []

theorem foldlM_concat {α : Type u} {β : Type u} (f : β → α → Option β) (b : β) (l : List α)
    (a : α) : (l ++ [a]).foldlM f b = (l.foldlM f b).bind fun x => f x a := by
  rw [List.foldlM_append]
  cases l.foldlM f b with
  | none => rfl
  | some x => simp

/-- `HttpApp` has its routes when no registration raises. -/
theorem addAll_eq (regs : List (Registration H)) :
    addAll U regs = if ∀ r ∈ regs, (r.entry U).isSome = true then some (Routes.registered U regs)
      else none := by
  induction regs using List.reverseRecOn with
  | nil => rfl
  | append_singleton regs r ih =>
    have hbuilt := Built.registered (U := U) regs
    have hstep : addAll U (regs ++ [r]) =
        (addAll U regs).bind fun rs => rs.add U r.method r.template r.handler :=
          foldlM_concat _ _ _ _
    rw [hstep, ih, hbuilt.registered_concat]
    simp only [List.forall_mem_append, List.forall_mem_singleton]
    by_cases hregs : ∀ r ∈ regs, (r.entry U).isSome = true
    · rw [if_pos hregs, Option.bind_some, hbuilt.add_eq]
      cases r.entry U with
      | none => rw [if_neg fun h => (by cases h.2), Option.map_none]
      | some e =>
        rw [if_pos ⟨hregs, rfl⟩]
        rfl
    · rw [if_neg hregs, if_neg fun h => hregs h.1]
      rfl

/-- The registration of a method and template that are there already is a repetition. -/
theorem nodup_keys_concat {es : List (Entry H)} {e : Entry H} :
    ((es ++ [e]).map Entry.key).Nodup ↔
      (es.map Entry.key).Nodup ∧ ¬(handler? es e.1 e.2.1).isSome = true := by
  rw [isSome_handler?_iff, List.map_append, List.map_singleton, List.nodup_append]
  constructor
  · rintro ⟨hes, -, hdisjoint⟩
    exact ⟨hes, fun hmem => hdisjoint _ hmem _ (List.mem_singleton.2 rfl) rfl⟩
  · rintro ⟨hes, hnot⟩
    refine ⟨hes, List.nodup_singleton _, fun a ha b hb heq => ?_⟩
    rw [heq, List.mem_singleton.1 hb] at ha
    exact hnot ha

/-- `HttpAsyncApp` has its entries when no registration raises and no method and template come
twice. -/
theorem addAllRoutes_eq (regs : List (Registration H)) :
    addAllRoutes U regs =
      if (∀ r ∈ regs, (r.entry U).isSome = true) ∧ ((entries U regs).map Entry.key).Nodup then
        some (bucketOf (Routes.registered U regs).paths)
      else none := by
  induction regs using List.reverseRecOn with
  | nil => rfl
  | append_singleton regs r ih =>
    have hbuilt := Built.registered (U := U) regs
    have hstep : addAllRoutes U (regs ++ [r]) = (addAllRoutes U regs).bind fun b =>
        (r.entry U).bind fun e => addRoute b e.1 e.2.1 e.2.2 := foldlM_concat _ _ _ _
    rw [hstep, ih, hbuilt.registered_concat, entries_concat]
    simp only [List.forall_mem_append, List.forall_mem_singleton]
    by_cases hregs : (∀ r ∈ regs, (r.entry U).isSome = true) ∧
        ((entries U regs).map Entry.key).Nodup
    · rw [if_pos hregs, Option.bind_some]
      -- a template that does not parse
      cases hentry : r.entry U with
      | none => rw [if_neg fun h => (by cases h.1.2), Option.bind_none]
      | some e =>
        rw [Option.bind_some, addRoute_eq hbuilt e.2.2 (parse_of_entry hentry), Option.toList_some]
        -- a route for the same template and method is refused, any other one is added
        by_cases hnew : (handler? (entries U regs) e.1 e.2.1).isSome = true
        · rw [if_pos hnew, if_neg fun h => (nodup_keys_concat.1 h.2).2 hnew]
        · rw [if_neg hnew, if_pos ⟨⟨hregs.1, rfl⟩, nodup_keys_concat.2 ⟨hregs.2, hnew⟩⟩]
          rfl
    -- the routes before it were refused already
    · rw [if_neg hregs, if_neg]
      · rfl
      · rintro ⟨⟨hall, -⟩, hnodup⟩
        refine hregs ⟨hall, ?_⟩
        rw [List.map_append] at hnodup
        exact (List.nodup_append.1 hnodup).1

/-- The operations have been parsed, and the built-in routes come after them. -/
theorem buildAsyncHandler_eq (ops : List (Operation U H)) (docs : Docs) :
    buildAsyncHandler ops docs =
      (addAllRoutes U (registrations ops docs)).map fun bucket => bucket.map (·.2) := by
  -- Both loops are one fold over the registrations.
  have hops : ∀ bucket : Bucket (Target H),
      (ops.map fun op => (⟨.member op.method, op.path, .operation op.handler⟩ :
        Registration (Target H))).foldlM
        (fun b r => (r.entry U).bind fun e => addRoute b e.1 e.2.1 e.2.2) bucket =
      ops.foldlM (fun b op => addRoute b op.method op.template (.operation op.handler)) bucket := by
    intro bucket
    rw [List.foldlM_map]
    congr 1
    funext b op
    rw [Registration.entry, op.parsed]
    rfl
  have hdocs : ∀ bucket : Bucket (Target H),
      ((builtIns docs).map fun route => (⟨.member .get, route.1, route.2⟩ :
        Registration (Target H))).foldlM
        (fun b r => (r.entry U).bind fun e => addRoute b e.1 e.2.1 e.2.2) bucket =
      (builtIns docs).foldlM (fun b route => (URITemplate.parse U route.1).bind fun t =>
        addRoute b .get t route.2) bucket := by
    intro bucket
    rw [List.foldlM_map]
    congr 1
    funext b route
    rw [Registration.entry]
    cases URITemplate.parse U route.1 with
    | none => rfl
    | some t => rfl
  rw [buildAsyncHandler, addAllRoutes, registrations, List.foldlM_append, hops]
  simp only [hdocs]
  rfl

/-! ## The loop of `_match` -/

/-- The entry of an item of the table. -/
def entryOf (item : Item H) : RouteEntry H := ⟨item.1, item.2⟩

variable {path methodStr : Str} {method : Option HTTPMethod} {item : Item H}

theorem matchEntries_miss (h : item.1.match? path = none) (entries : List (RouteEntry H))
    (any : Bool) (allow : List HTTPMethod) :
    matchEntries path method (entryOf item :: entries) any allow =
      matchEntries path method entries any allow := by
  rw [matchEntries, show (entryOf item).template.match? path = none from h]

/-- An entry without the method is passed over. -/
theorem matchEntries_skip {args : List (Str × Str)} (h : item.1.match? path = some args)
    (hmethod : ∀ m, method = some m → Dict.get? m item.2 = none) (entries : List (RouteEntry H))
    (any : Bool) (allow : List HTTPMethod) :
    matchEntries path method (entryOf item :: entries) any allow =
      matchEntries path method entries true (Router.update allow (Dict.keys item.2)) := by
  rw [matchEntries, show (entryOf item).template.match? path = some args from h]
  cases method with
  | none => rfl
  | some m =>
    rw [Option.bind_some, show Dict.get? m (entryOf item).methods = none from hmethod m rfl]
    rfl

/-- The loop over the entries stops where the walk does. -/
theorem matchEntries_stopsAt {pre : List (Item H)} {handler : H} {found : RouteMatch}
    (h : StopsAt path method pre item handler found) (post : List (Item H)) (any : Bool)
    (allow : List HTTPMethod) :
    matchEntries path method ((pre ++ item :: post).map entryOf) any allow =
      .handled handler found := by
  -- the entries in front miss the path, or have no handler for the method
  induction pre generalizing any allow with
  | nil =>
    obtain ⟨m, t, args⟩ := found
    obtain ⟨rfl, htemplate, hargs, hhandler, -⟩ := h
    change t = item.1 at htemplate
    subst htemplate
    rw [List.nil_append, List.map_cons, matchEntries,
      show (entryOf item).template.match? path = some args from hargs, Option.bind_some,
      show Dict.get? m (entryOf item).methods = some handler from hhandler]
    rfl
  | cons i pre ih =>
    have hrest : StopsAt path method pre item handler found :=
      { h with passed := fun j hj => h.passed j (List.mem_cons_of_mem _ hj) }
    rw [List.cons_append, List.map_cons]
    cases hmatch : i.1.match? path with
    | none => rw [matchEntries_miss hmatch, ih hrest]
    | some args =>
      have hnone : ∀ m, method = some m → Dict.get? m i.2 = none := by
        intro m hm
        cases h.method_eq.symm.trans hm
        exact h.passed i List.mem_cons_self (by rw [hmatch]; rfl)
      rw [matchEntries_skip hmatch hnone, ih hrest]

/-- Where the walk stops nowhere, the loop has collected what would be allowed. -/
theorem matchEntries_stopsNowhere {items : List (Item H)} (h : StopsNowhere path method items)
    (any : Bool) (allow : List HTTPMethod) :
    matchEntries path method (items.map entryOf) any allow =
      matchEntries path method [] (any || !(hits path items).isEmpty)
        (updateAll allow (hits path items)) := by
  induction items generalizing any allow with
  | nil =>
    rw [show hits path ([] : List (Item H)) = [] from rfl, List.isEmpty_nil, Bool.not_true,
      Bool.or_false]
    rfl
  | cons item items ih =>
    rw [List.map_cons]
    cases hmatch : item.1.match? path with
    | none =>
      have hitems : StopsNowhere path method items := by
        rw [StopsNowhere, ← hits_cons_of_none hmatch]
        exact h
      rw [matchEntries_miss hmatch, ih hitems, hits_cons_of_none hmatch]
    -- the path is hit: the methods are remembered, and the walk goes on
    | some args =>
      rw [StopsNowhere, hits_cons_of_some hmatch] at h
      have hitems : StopsNowhere path method items :=
        fun m hm i hi => h m hm i (List.mem_cons_of_mem _ hi)
      rw [matchEntries_skip hmatch fun m hm => h m hm item List.mem_cons_self, ih hitems,
        hits_cons_of_some hmatch, List.isEmpty_cons, Bool.true_or, Bool.not_false, Bool.or_true]
      rfl

theorem joinSorted_eq (allow : List HTTPMethod) : joinSorted allow = formatAllowHeader allow := by
  have hsort := List.map_insertionSort (fun a b : HTTPMethod => a.value ≤ b.value)
    (fun a b : Str => a ≤ b) HTTPMethod.value allow fun a _ b _ => Iff.rfl
  rw [joinSorted, formatAllowHeader, joinAllow, hsort]

/-- `_match` comes to the reference's verdict for the order of registration. -/
theorem async_decides {es : List (Entry H)} {paths : Dict URITemplate (MethodMap H)}
    (h : Built U es paths) (path methodStr : Str) :
    Decides es (fun t u => position es t < position es u) path methodStr
      (matchEntries path (HTTPMethod.ofValue methodStr) (paths.map entryOf) false []) := by
  have hperm := List.Perm.refl paths
  rcases first_hit path (HTTPMethod.ofValue methodStr) paths with
    ⟨pre, item, post, handler, found, hitems, hstop⟩ | hnone
  · have hresult := matchEntries_stopsAt hstop post false []
    rw [← hitems] at hresult
    rw [hresult]
    exact h.decides_hit hperm (List.pairwise_map.1 h.sorted) hitems hstop
  · rw [matchEntries_stopsNowhere hnone, Bool.false_or, matchEntries]
    by_cases hne : hits path paths = []
    · rw [hne, List.isEmpty_nil, Bool.not_true, if_neg Bool.false_ne_true]
      exact h.decides_notFound hperm hne
    · rw [if_pos (by simpa using hne), joinSorted_eq]
      refine h.decides_miss hperm hne hnone ?_
      refine (allowOf_formatAllowHeader (nodup_updateAll List.nodup_nil)).congr fun m => ?_
      rw [mem_updateAll]
      simp

end LocalPost.Openapi
