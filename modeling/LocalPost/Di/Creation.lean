import LocalPost.Di.Sound

/-!
# What a provider has stored while a factory runs

A step begins a creation, stores an instance, or does neither (`Quiet`). As long as no thread begins
a creation that it is in already (`outside`), the value that the second lookup saw is still the
stored one when the factory ends.
-/

set_option autoImplicit false

namespace LocalPost.Di

open LocalPost.Core

namespace World

/-- The condition on a step that no factory is begun on a thread that is in it. -/
def outside (s : World) : Act → Bool
  | .recheck t _ =>
    match (s.threads[t]?).map Thread.stack with
    | some (.rechecking c :: stack) => decide ((c.provider, c.ty) ∉ creations stack)
    | _ => true
  | _ => true

end World

/-- A step that begins no creation and stores nothing: the thread may only end creations. -/
structure Quiet (s : World) (t : Nat) (th : Thread) (u : World) : Prop where
  threads : ∃ th', u.threads = s.threads.set t th' ∧
    (th'.stack.filterMap Frame.creates).Sublist (th.stack.filterMap Frame.creates)
  instances : u.instances = s.instances
  services : ∀ (p : Nat) (k' : Provider), u.providers[p]? = some k' →
    (∃ k, s.providers[p]? = some k ∧ k'.services = k.services) ∨
      s.providers[p]? = none ∧ k'.services = []

/-- What a step does to the creations and the stored values. -/
inductive Stores (s : World) (t : Nat) (th : Thread) : Act → World → Prop where
  | quiet {a : Act} {u : World} (h : Quiet s t th u) : Stores s t th a u
  | begins {truthy : Bool} {c : Call} {stack : List Frame} {k : Provider} {d : ServiceDescriptor}
      (hth : th = ⟨.rechecking c :: stack, none⟩) (hk : s.providers[c.provider]? = some k)
      (hcached : World.cached k c.ty truthy = none) :
      Stores s t th (.recheck t truthy)
        (s.goes t (.wiring c (Dict.get? c.ty k.services) d.factory.deps [] :: stack))
  | stores {a : Act} {f : Frame} {c : Call} {found : Option Nat} {injected : List Resolved}
      {stack : List Frame}
      {k : Provider} {d : ServiceDescriptor} (hth : th = ⟨f :: stack, none⟩)
      (hf : f.creates = some (c, found)) (hk : s.providers[c.provider]? = some k) :
      Stores s t th a ((s.store c k d injected).reply t c (.instance s.instances.length) stack)

section

variable {s u : World} {t : Nat} {th : Thread}

/-- Nothing but the thread changes. -/
theorem Quiet.steps {th' : Thread} (hthreads : u.threads = s.threads.set t th')
    (hproviders : u.providers = s.providers) (hinstances : u.instances = s.instances)
    (hsub : (th'.stack.filterMap Frame.creates).Sublist (th.stack.filterMap Frame.creates)) :
    Quiet s t th u := by
  refine ⟨⟨th', hthreads, hsub⟩, hinstances, fun p k' hk' => ?_⟩
  rw [hproviders] at hk'
  exact .inl ⟨k', hk', rfl⟩

/-- A provider with the same services takes the place of another. -/
theorem services_set {p : Nat} {k k' : Provider} (hk : s.providers[p]? = some k)
    (hsame : k'.services = k.services)
    (q : Nat) (kq : Provider) (hq : (s.providers.set p k')[q]? = some kq) :
    (∃ k, s.providers[q]? = some k ∧ kq.services = k.services) ∨ s.providers[q]? = none ∧
      kq.services = [] := by
  rw [getElem?_set_iff hk] at hq
  split at hq
  · rename_i heq
    subst heq
    subst hq
    exact .inl ⟨k, hk, hsame⟩
  · exact .inl ⟨kq, hq, rfl⟩

theorem creates_sublist_cons (f : Frame) (stack : List Frame) :
    (stack.filterMap Frame.creates).Sublist ((f :: stack).filterMap Frame.creates) :=
  (List.sublist_cons_self f stack).filterMap Frame.creates

/-- What a move does to the store. -/
theorem Moves.stores {a : Act} (h : Moves s t th a u) : Stores s t th a u := by
  cases h with
  | asks hfree hp => exact .quiet (.steps rfl rfl rfl (.refl _))
  | enters hfree hparent =>
    refine .quiet ⟨⟨_, rfl, .refl _⟩, rfl, fun p k' hk' => ?_⟩
    rcases getElem?_concat_iff.1 hk' with hk' | ⟨rfl, rfl⟩
    · exact .inl ⟨k', hk', rfl⟩
    · exact .inr ⟨List.getElem?_eq_none (Nat.le_refl _), rfl⟩
  | produces hth hf hk hd =>
    rcases hf with ⟨found, rfl⟩ | ⟨found, rfl⟩
    · exact .stores hth rfl hk
    · exact .stores hth rfl hk
  | begins hth hk hd hcached => exact .begins hth hk hcached
  | knows hth hr hty =>
    subst hth
    exact .quiet (.steps rfl rfl rfl (creates_sublist_cons _ _))
  | finds hth hf hk hi =>
    subst hth
    exact .quiet (.steps rfl rfl rfl (creates_sublist_cons _ _))
  | fails hth =>
    subst hth
    exact .quiet (.steps rfl rfl rfl (creates_sublist_cons _ _))
  | aborts hth =>
    subst hth
    exact .quiet (.steps rfl rfl rfl (creates_sublist_cons _ _))
  | goes_on hreply htop => exact .quiet (.steps rfl rfl rfl (.refl _))
  | @pops p stack k i a hth hk hi ha =>
    subst hth
    refine .quiet ⟨⟨_, rfl, ?_⟩, rfl, services_set hk rfl⟩
    split
    · exact .refl _
    · exact .refl _
  | is_left hth hk hexits =>
    subst hth
    exact .quiet ⟨⟨_, rfl, .refl _⟩, rfl, services_set hk rfl⟩
  | _ hth =>
    -- one level takes the place of another, which creates what that did
    subst hth
    exact .quiet (.steps rfl rfl rfl (.refl _))

end

/-- What runs keep that begin no creation twice. -/
structure Held (s : World) : Prop where
  found : ∀ (t : Nat) (th : Thread) (c : Call) (e : Option Nat) (k : Provider),
    s.threads[t]? = some th →
    (c, e) ∈ th.stack.filterMap Frame.creates → s.providers[c.provider]? = some k →
      Dict.get? c.ty k.services = e
  once : ∀ (t : Nat) (th : Thread), s.threads[t]? = some th → (creations th.stack).Nodup

theorem mem_creations {stack : List Frame} {p : Nat} {ty : Ty} :
    (p, ty) ∈ creations stack ↔ ∃ c e, (c, e) ∈ stack.filterMap Frame.creates ∧ c.provider = p ∧
      c.ty = ty := by
  rw [creations, List.mem_map]
  constructor
  · rintro ⟨⟨c, e⟩, hmem, heq⟩
    exact ⟨c, e, hmem, congrArg Prod.fst heq, congrArg Prod.snd heq⟩
  · rintro ⟨c, e, hmem, rfl, rfl⟩
    exact ⟨(c, e), hmem, rfl⟩

/-- A creation holds the lock of its provider. -/
theorem Thread.holds_of_creates {th : Thread} {c : Call} {e : Option Nat}
    (h : (c, e) ∈ th.stack.filterMap Frame.creates) : th.holds c.provider = true := by
  obtain ⟨f, hf, hcreates⟩ := List.mem_filterMap.1 h
  refine Sound.holds_iff.2 ⟨f, hf, ?_⟩
  cases f with
  | wiring c found deps injected =>
    cases hcreates
    rfl
  | running c found injected =>
    cases hcreates
    rfl
  | _ => cases hcreates

/-- A service that a provider has an instance of has a stored value. -/
def Kept (s : World) : Prop :=
  ∀ (i : Nat) (a : Instance) (k : Provider), s.instances[i]? = some a →
    s.providers[a.provider]? = some k → Dict.get? a.ty k.services ≠ none

theorem Kept.start (n : Nat) : Kept (.start n) := fun i a k h => (by cases h)

/-- No move takes the value of an instance back. -/
theorem Kept.moves {s u : World} {t : Nat} {th : Thread} {a : Act} (hledger : Ledger s) (h : Kept s)
    (hmoves : Moves s t th a u) : Kept u := by
  intro i b k' hb hk'
  -- Only a store writes into `services`, and it never takes an entry out.
  cases hmoves.stores with
  | quiet hquiet =>
    rw [hquiet.instances] at hb
    -- a provider that is new has no instances yet
    rcases hquiet.services _ k' hk' with ⟨k, hk, hsame⟩ | ⟨hnone, -⟩
    · rw [hsame]
      exact h i b k hb hk
    · obtain ⟨k, hk⟩ := hledger.made i b hb
      rw [hnone] at hk
      cases hk
  | begins hth hk hcached => exact h i b k' hb hk'
  | @stores a f c found injected stack k d hth hf hk =>
    have hk'' : (s.providers.set c.provider _)[b.provider]? = some k' := hk'
    rw [getElem?_set_iff hk] at hk''
    -- the instance that was there before, or the stored one
    rcases getElem?_concat_iff.1 hb with hb | ⟨rfl, rfl⟩
    · split at hk''
      · rename_i heq
        subst hk''
        rw [Dict.get?_set]
        split
        · exact Option.some_ne_none _
        · exact h i b k hb (heq ▸ hk)
      · exact h i b k' hb hk''
    · rw [if_pos rfl] at hk''
      subst hk''
      rw [Dict.get?_set_self]
      exact Option.some_ne_none _

namespace Held

variable {s u : World} {t : Nat} {th : Thread}

theorem start (n : Nat) : Held (.start n) := by
  have hidle : ∀ (t : Nat) (th : Thread),
      (World.start n).threads[t]? = some th → th.stack = [] := by
    intro t th hth
    rw [(List.mem_replicate.1 (List.mem_of_getElem? hth)).2]
  refine ⟨fun t th c e k hth he => ?_, fun t th hth => ?_⟩
  · rw [hidle t th hth] at he
    exact absurd he List.not_mem_nil
  · rw [hidle t th hth]
    exact List.nodup_nil

/-- A move without creations keeps what runs hold that begin none twice. -/
theorem quiet (hs : Sound s) (h : Held s) (hth : s.threads[t]? = some th)
    (hquiet : Quiet s t th u) : Held u := by
  obtain ⟨⟨th', hthreads, hsub⟩, -, hservices⟩ := hquiet
  refine ⟨fun v thv c e k' hv he hk' => ?_, fun v thv hv => ?_⟩
  · obtain ⟨v₀, th₀, hv₀, he₀⟩ : ∃ (v₀ : Nat) (th₀ : Thread), s.threads[v₀]? = some th₀ ∧
        (c, e) ∈ th₀.stack.filterMap Frame.creates := by
      rw [hthreads, getElem?_set_iff hth] at hv
      split at hv
      · subst hv
        exact ⟨t, th, hth, hsub.subset he⟩
      · exact ⟨v, thv, hv, he⟩
    rcases hservices _ k' hk' with ⟨k, hk, hsame⟩ | ⟨hnone, -⟩
    · rw [hsame]
      exact h.found v₀ th₀ c e k hv₀ he₀ hk
    · -- the provider of a call that creates is there
      obtain ⟨f, hf, hcreates⟩ := List.mem_filterMap.1 he₀
      obtain ⟨-, k, d, hk, -⟩ := Frame.Fits.owner (hs.frames v₀ th₀ hv₀ f hf) hcreates
      rw [hnone] at hk
      cases hk
  · rw [hthreads, getElem?_set_iff hth] at hv
    split at hv
    · subst hv
      exact (h.once t th hth).sublist (hsub.map _)
    · exact h.once v thv hv

/-- A creation begins. -/
theorem begins (h : Held s) {c : Call} {stack : List Frame} {k : Provider} {deps : List Ty}
    {injected : List Resolved} (hth : s.threads[t]? = some ⟨.rechecking c :: stack, none⟩)
    (hk : s.providers[c.provider]? = some k) (hnew : (c.provider, c.ty) ∉ creations stack) :
    Held (s.goes t (.wiring c (Dict.get? c.ty k.services) deps injected :: stack)) := by
  refine ⟨fun v thv c' e k' hv he hk' => ?_, fun v thv hv => ?_⟩
  · rw [World.goes, getElem?_set_iff hth] at hv
    split at hv
    · subst hv
      rcases List.mem_cons.1 he with heq | he
      · cases heq
        cases hk.symm.trans hk'
        rfl
      · exact h.found t _ c' e k' hth he hk'
    · exact h.found v thv c' e k' hv he hk'
  · rw [World.goes, getElem?_set_iff hth] at hv
    split at hv
    · subst hv
      exact List.nodup_cons.2 ⟨hnew, h.once t _ hth⟩
    · exact h.once v thv hv

/-- A creation stores its instance: no other one is about the same service. -/
theorem stores (hs : Sound s) (h : Held s) {f : Frame} {c : Call} {found : Option Nat}
    {injected : List Resolved}
    {stack : List Frame} {k : Provider} {d : ServiceDescriptor}
    (hth : s.threads[t]? = some ⟨f :: stack, none⟩)
    (hf : f.creates = some (c, found)) (hk : s.providers[c.provider]? = some k) :
    Held ((s.store c k d injected).reply t c (.instance s.instances.length) stack) := by
  have htop : (f :: stack).filterMap Frame.creates = (c, found) :: stack.filterMap Frame.creates :=
    List.filterMap_cons_some hf
  have hnodup : (creations (f :: stack)).Nodup := h.once t _ hth
  rw [creations, htop, List.map_cons, List.nodup_cons] at hnodup
  refine ⟨fun v thv c' e k' hv he hk' => ?_, fun v thv hv => ?_⟩
  · have hold : ∃ (v₀ : Nat) (th₀ : Thread), s.threads[v₀]? = some th₀ ∧
        (c', e) ∈ th₀.stack.filterMap Frame.creates ∧
            (c'.provider = c.provider → c'.ty ≠ c.ty) := by
      have hv' : (s.threads.set t _)[v]? = some thv := hv
      rw [getElem?_set_iff hth] at hv'
      split at hv'
      · subst hv'
        refine ⟨t, _, hth, (creates_sublist_cons f stack).subset he, fun hp hty => hnodup.1 ?_⟩
        exact mem_creations.2 ⟨c', e, he, hp, hty⟩
      · rename_i hne
        -- the lock keeps the other threads out
        refine ⟨v, thv, hv', he, fun hp _ => hne ?_⟩
        refine hs.exclusive t v _ thv c.provider hth hv' (Thread.holds_of_creates (e := found) ?_)
          (hp ▸ Thread.holds_of_creates he)
        exact htop.symm ▸ List.mem_cons_self
    obtain ⟨v₀, th₀, hv₀, he₀, hother⟩ := hold
    have hk'' : (s.providers.set c.provider _)[c'.provider]? = some k' := hk'
    rw [getElem?_set_iff hk] at hk''
    split at hk''
    · rename_i heq
      subst hk''
      rw [Dict.get?_set, if_neg (Ne.symm (hother heq.symm))]
      exact h.found v₀ th₀ c' e k hv₀ he₀ (heq ▸ hk)
    · exact h.found v₀ th₀ c' e k' hv₀ he₀ hk''
  · have hv' : (s.threads.set t _)[v]? = some thv := hv
    rw [getElem?_set_iff hth] at hv'
    split at hv'
    · subst hv'
      exact hnodup.2
    · exact h.once v thv hv'

/-- A move that begins no creation twice keeps what such runs hold. -/
theorem moves {a : Act} (hs : Sound s) (h : Held s) (hcond : s.outside a = true)
    (hth : s.threads[t]? = some th) (hmoves : Moves s t th a u) : Held u := by
  cases hmoves.stores with
  | quiet hquiet => exact h.quiet hs hth hquiet
  | @begins truthy c stack k d hth' hk hcached =>
    subst hth'
    refine h.begins hth hk ?_
    rw [World.outside, hth] at hcond
    exact of_decide_eq_true hcond
  | stores hth' hf hk =>
    subst hth'
    exact h.stores hs hth hf hk

end Held

end LocalPost.Di
