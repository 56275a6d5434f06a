import LocalPost.Di.Creation

/-!
# One instance of a service for each provider

Creation starts behind the second lookup, under the lock. Where that lookup goes by what the value
is and not by whether there is one, a service whose value is not true is created again (`twin`); and
the lock lets in the thread that holds it, so a factory that resolves its own service makes a second
one. Runs in which neither happens keep one instance of each service for each provider.
-/

set_option autoImplicit false

namespace LocalPost.Di

open LocalPost.Core

/-- The condition on a step: behind the second lookup a factory is run only if the provider has no
value for the service, true or not, and only if the thread is not in the same factory already. -/
def World.firstOnly (s : World) (a : Act) : Bool :=
  s.outside a &&
    match a with
    | .recheck t truthy =>
      match (s.threads[t]?).map Thread.stack with
      | some (.rechecking c :: _) =>
        ((s.providers[c.provider]?).bind fun k => Dict.get? c.ty k.services).isNone || truthy
      | _ => true
    | _ => true

/-- What runs under the condition keep: an instance is the one that its provider has stored, and
creations have found nothing stored. -/
structure Single (s : World) : Prop where
  stored : ∀ (i : Nat) (a : Instance) (k : Provider), s.instances[i]? = some a →
    s.providers[a.provider]? = some k → Dict.get? a.ty k.services = some i
  fresh : ∀ (t : Nat) (th : Thread) (c : Call) (e : Option Nat), s.threads[t]? = some th →
    (c, e) ∈ th.stack.filterMap Frame.creates → e = none

namespace Single

variable {s u : World} {t : Nat} {th : Thread}

theorem start (n : Nat) : Single (.start n) := by
  refine ⟨fun i a k h => (by cases h), fun t th c e hth he => ?_⟩
  rw [(List.mem_replicate.1 (List.mem_of_getElem? hth)).2] at he
  exact absurd he List.not_mem_nil

/-- A move without creations keeps every stored instance the only one. -/
theorem quiet (hledger : Ledger s) (h : Single s) (hth : s.threads[t]? = some th)
    (hquiet : Quiet s t th u) : Single u := by
  obtain ⟨⟨th', hthreads, hsub⟩, hinstances, hservices⟩ := hquiet
  refine ⟨fun i a k' ha hk' => ?_, fun v thv c e hv he => ?_⟩
  · rw [hinstances] at ha
    rcases hservices _ k' hk' with ⟨k, hk, hsame⟩ | ⟨hnone, -⟩
    · rw [hsame]
      exact h.stored i a k ha hk
    · obtain ⟨k, hk⟩ := hledger.made i a ha
      rw [hnone] at hk
      cases hk
  · rw [hthreads, getElem?_set_iff hth] at hv
    split at hv
    · subst hv
      exact h.fresh t th c e hth (hsub.subset he)
    · exact h.fresh v thv c e hv he

/-- A creation begins. -/
theorem begins (h : Single s) {truthy : Bool} {c : Call} {stack : List Frame} {k : Provider}
    {deps : List Ty}
    {injected : List Resolved} (hth : s.threads[t]? = some ⟨.rechecking c :: stack, none⟩)
    (hk : s.providers[c.provider]? = some k) (hcached : World.cached k c.ty truthy = none)
    (hcond : s.firstOnly (.recheck t truthy) = true) :
    Single (s.goes t (.wiring c (Dict.get? c.ty k.services) deps injected :: stack)) := by
  -- a truthiness test that passes a stored instance over is what the condition excludes
  have hnone : Dict.get? c.ty k.services = none := by
    have htruthy := (Bool.and_eq_true_iff.1 hcond).2
    simp only [hth, Option.map_some, hk, Option.bind_some] at htruthy
    cases hget : Dict.get? c.ty k.services with
    | none => rfl
    | some i =>
      rw [hget] at htruthy
      have htrue : truthy = true := htruthy
      rw [World.cached, hget, htrue] at hcached
      cases hcached
  refine ⟨h.stored, fun v thv c' e hv he => ?_⟩
  rw [World.goes, getElem?_set_iff hth] at hv
  split at hv
  -- the frame that begins creates a type without an instance; the others did so before
  · subst hv
    rcases List.mem_cons.1 he with heq | he
    · cases heq
      exact hnone
    · exact h.fresh t _ c' e hth he
  · exact h.fresh v thv c' e hv he

/-- A creation stores the first value. -/
theorem stores (hheld : Held s) (h : Single s) {f : Frame} {c : Call} {found : Option Nat}
    {injected : List Resolved} {stack : List Frame} {k : Provider} {d : ServiceDescriptor}
    (hth : s.threads[t]? = some ⟨f :: stack, none⟩) (hf : f.creates = some (c, found))
    (hk : s.providers[c.provider]? = some k) :
    Single ((s.store c k d injected).reply t c (.instance s.instances.length) stack) := by
  have htop : (c, found) ∈ (f :: stack).filterMap Frame.creates :=
    List.mem_filterMap.2 ⟨f, List.mem_cons_self, hf⟩
  -- what the frame found at the second look is still what is stored
  have hnone : Dict.get? c.ty k.services = none := by
    rw [hheld.found t _ c found k hth htop hk]
    exact h.fresh t _ c found hth htop
  refine ⟨fun i a kp ha hp => ?_, fun v thv c' e hv he => ?_⟩
  · have hp' : (s.providers.set c.provider _)[a.provider]? = some kp := hp
    rw [getElem?_set_iff hk] at hp'
    rcases getElem?_concat_iff.1 ha with ha | ⟨rfl, rfl⟩
    -- under the same key there was no instance, so nothing is replaced
    · split at hp'
      · rename_i heq
        subst hp'
        have hstored := h.stored i a k ha (heq ▸ hk)
        rw [Dict.get?_set, if_neg]
        · exact hstored
        · rintro hty
          rw [← hty, hnone] at hstored
          cases hstored
      · exact h.stored i a kp ha hp'
    · rw [if_pos rfl] at hp'
      subst hp'
      exact Dict.get?_set_self _ _ _
  · have hv' : (s.threads.set t _)[v]? = some thv := hv
    rw [getElem?_set_iff hth] at hv'
    split at hv'
    · subst hv'
      exact h.fresh t _ c' e hth ((creates_sublist_cons f stack).subset he)
    · exact h.fresh v thv c' e hv' he

/-- A move under the condition keeps every stored instance the only one. -/
theorem moves {a : Act} (hledger : Ledger s) (hheld : Held s) (h : Single s)
    (hcond : s.firstOnly a = true)
    (hth : s.threads[t]? = some th) (hmoves : Moves s t th a u) : Single u := by
  cases hmoves.stores with
  | quiet hquiet => exact h.quiet hledger hth hquiet
  | begins hth' hk hcached =>
    subst hth'
    exact h.begins hth hk hcached hcond
  | stores hth' hf hk =>
    subst hth'
    exact h.stores hheld hth hf hk

end Single

/-- What the providers promise: one instance for each service of a provider, whose exit callback is
entered once, and a resolution returns the one of the provider that owns the service. -/
structure OneInstance (s : World) : Prop where
  created : ∀ (i j : Nat) (a b : Instance), s.instances[i]? = some a → s.instances[j]? = some b →
    a.provider = b.provider → a.ty = b.ty → i = j
  entered : ∀ (i : Nat) (a : Instance), s.instances[i]? = some a →
    ∃ k, s.providers[a.provider]? = some k ∧ k.exits.count i + s.closed.count i = 1
  returned : ∀ e ∈ s.returned, e.Fits s
  same : ∀ e ∈ s.returned, ∀ e' ∈ s.returned, ∀ (i j p : Nat), e.result = .instance i →
    e'.result = .instance j →
    e.ty = e'.ty → Owner s.providers e.ty e.asked p → Owner s.providers e'.ty e'.asked p → i = j

/-- Where every stored instance is the only one, each provider has one of each service. -/
theorem OneInstance.of_single {s : World} (hs : Sound s) (hledger : Ledger s) (h : Single s) :
    OneInstance s := by
  have hcreated : ∀ (i j : Nat) (a b : Instance), s.instances[i]? = some a →
    s.instances[j]? = some b →
      a.provider = b.provider → a.ty = b.ty → i = j := by
    intro i j a b ha hb hprovider hty
    obtain ⟨k, hk⟩ := hledger.made i a ha
    have hi := h.stored i a k ha hk
    rw [hty, h.stored j b k hb (hprovider ▸ hk)] at hi
    exact (Option.some.inj hi).symm
  refine ⟨hcreated, fun i a ha => ?_, hs.returned,
    fun e he e' he' i j p hi hj hty howner howner' => ?_⟩
  · obtain ⟨k, hk⟩ := hledger.made i a ha
    exact ⟨k, hk, hledger.count i a k ha hk⟩
  · have hfits := hs.returned e he
    have hfits' := hs.returned e' he'
    rw [Returned.Fits, hi] at hfits
    rw [Returned.Fits, hj] at hfits'
    obtain ⟨a, ha, haty, hao⟩ := hfits
    obtain ⟨b, hb, hbty, hbo⟩ := hfits'
    refine hcreated i j a b ha hb ?_ (haty.trans (hty.trans hbty.symm))
    rw [hao.unique howner, hbo.unique howner']

/-- Runs in which creation starts only for a service that has no value and is not being created have
one instance of each service, in every state that they visit. -/
theorem one_instance_of_firstOnly (n : Nat) (as : List Act)
    (hmeets : system.Meets (fun s a => s.firstOnly a = true) (World.start n) as) :
    system.Throughout OneInstance (World.start n) as := by
  have hall : system.Throughout (fun s => (Sound s ∧ Ledger s) ∧ Held s ∧ Single s)
      (World.start n) as := by
    refine Lts.throughout_of_meets (I := fun _ => True) (fun _ _ _ _ _ => trivial)
      (fun s a u _ h hcond hstep => ?_)
      trivial ⟨⟨.start n, .start n⟩, .start n, .start n⟩ hmeets
    obtain ⟨⟨hs, hledger⟩, hheld, hsingle⟩ := h
    obtain ⟨th, hth, hmoves⟩ := World.moves_of_step hstep
    have houtside : s.outside a = true := (Bool.and_eq_true_iff.1 hcond).1
    exact ⟨⟨hs.moves hth hmoves, hledger.moves hmoves⟩, hheld.moves hs houtside hth hmoves,
      hsingle.moves hledger hheld hcond hth hmoves⟩
  exact Lts.Throughout.mono (fun s h => .of_single h.1.1 h.1.2 h.2.2) hall

/-- A plain factory of the application's scope, without dependencies. -/
def plainService : ServiceDescriptor := ⟨2, appContext, .plain [], false⟩

/-- Two threads open the application's scope and resolve its service one after the other, the value
being true or not. -/
def resolvedTwice (truthy : Bool) : List Act :=
  [.enter 0 none [plainService] appContext, .eager 0,
    .ask 0 0 2, .lookup 0 truthy, .lock 0, .recheck 0 truthy, .wire 0, .produce 0, .deliver 0,
    .ask 1 0 2, .lookup 1 truthy] ++
    if truthy then [.deliver 1] else [.lock 1, .recheck 1 truthy, .wire 1, .produce 1, .deliver 1]

/-- With a value that is true there is one instance. -/
theorem one_instance_of_truthy :
    system.Throughout OneInstance (World.start 2) (resolvedTwice true) ∧
      ((system.exec (World.start 2) (resolvedTwice true)).map fun s =>
        s.returned.map Returned.result) = some [.instance 0, .instance 0] :=
  ⟨one_instance_of_firstOnly 2 (resolvedTwice true) (by decide), by decide⟩

/-- With an empty list for a value there are two, and the two resolutions return one each. -/
theorem twin : ¬ ∀ (n : Nat) (as : List Act), system.Throughout OneInstance (World.start n) as := by
  intro h
  have hrun := Lts.throughout_iff_prefix.1 (h 2 (resolvedTwice false)) _ _ (List.prefix_refl _)
    (Option.some_get
      (show (system.exec (World.start 2) (resolvedTwice false)).isSome = true by decide)).symm
  have hone := hrun.created 0 1 ⟨0, 2, .plain [], [], 0, false⟩ ⟨0, 2, .plain [], [], 0, false⟩
    (by decide) (by decide)
    rfl rfl
  cases hone

end LocalPost.Di
