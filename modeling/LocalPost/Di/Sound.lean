import LocalPost.Di.Ledger

/-!
# The owner of a service

A call ends at the provider that owns the service: the first one, from the one that was asked
upwards, whose registry has it for its own scope. Parents, registries and scope types do not change
(`Grows`), so the way of a call stays what it was. `Sound` is what every run keeps: calls are on
their way, stored values are instances of their provider, a lock is held by one thread, and what was
returned comes from the owner.
-/

set_option autoImplicit false

namespace LocalPost.Di

open LocalPost.Core

/-! ## The owner of a service -/

/-- The search for a service goes from the provider that was asked to this one. -/
inductive Passed (ps : List Provider) (ty : Ty) (asked : Nat) : Nat → Prop where
  | here : Passed ps ty asked asked
  | up {p q : Nat} {k : Provider} (h : Passed ps ty asked p) (hk : ps[p]? = some k)
      (hd : k.descriptor ty = none) (hq : k.parent = some q) : Passed ps ty asked q

/-- The search ends here: the service is registered. -/
def Owner (ps : List Provider) (ty : Ty) (asked p : Nat) : Prop :=
  Passed ps ty asked p ∧ ∃ k d, ps[p]? = some k ∧ k.descriptor ty = some d

/-- Providers keep their parents, registries and scope types. -/
def Grows (ps qs : List Provider) : Prop :=
  ∀ (p : Nat) (k : Provider), ps[p]? = some k → ∃ k', qs[p]? = some k' ∧ k'.parent = k.parent ∧
    k'.scope_type = k.scope_type ∧ ∀ ty, k'.descriptor ty = k.descriptor ty

theorem Grows.refl (ps : List Provider) : Grows ps ps := fun _ k hk =>
    ⟨k, hk, rfl, rfl, fun _ => rfl⟩

theorem grows_set {ps : List Provider} {p : Nat} {k k' : Provider} (hk : ps[p]? = some k)
    (hparent : k'.parent = k.parent) (hscope : k'.scope_type = k.scope_type)
    (hdescriptor : ∀ ty, k'.descriptor ty = k.descriptor ty) : Grows ps (ps.set p k') := by
  intro q kq hq
  by_cases heq : p = q
  · subst heq
    cases hk.symm.trans hq
    exact ⟨k', (getElem?_set_iff hk).2 (by rw [if_pos rfl]), hparent, hscope, hdescriptor⟩
  · exact ⟨kq, (getElem?_set_iff hk).2 (by rw [if_neg heq]; exact hq), rfl, rfl, fun _ => rfl⟩

theorem Passed.grows {ps qs : List Provider} {ty : Ty} {asked p : Nat} (hg : Grows ps qs)
    (h : Passed ps ty asked p) : Passed qs ty asked p := by
  induction h with
  | here => exact .here
  | up _ hk hd hq ih =>
    obtain ⟨k', hk', hparent, -, hdescriptor⟩ := hg _ _ hk
    exact .up ih hk' ((hdescriptor ty).trans hd) (hparent.trans hq)

theorem Owner.grows {ps qs : List Provider} {ty : Ty} {asked p : Nat} (hg : Grows ps qs)
    (h : Owner ps ty asked p) : Owner qs ty asked p := by
  obtain ⟨hpassed, k, d, hk, hd⟩ := h
  obtain ⟨k', hk', -, -, hdescriptor⟩ := hg p k hk
  exact ⟨hpassed.grows hg, k', d, hk', (hdescriptor ty).trans hd⟩

/-- Of two providers on the way one is on the way from the other. -/
theorem Passed.linear {ps : List Provider} {ty : Ty} {asked p q : Nat} (h : Passed ps ty asked p)
    (h' : Passed ps ty asked q) : Passed ps ty p q ∨ Passed ps ty q p := by
  induction h with
  | here => exact .inl h'
  | @up p₀ p₁ k _ hk hd hq ih =>
    rcases ih with hpq | hqp
    · -- the way from the provider before goes through this one, unless it ends there
      have hfirst : ∀ r, Passed ps ty p₀ r → r = p₀ ∨ Passed ps ty p₁ r := by
        intro r hr
        induction hr with
        | here => exact .inl rfl
        | up _ hk' hd' hq' ihr =>
          rcases ihr with rfl | hr
          · cases hk.symm.trans hk'
            cases hq.symm.trans hq'
            exact .inr .here
          · exact .inr (.up hr hk' hd' hq')
      rcases hfirst q hpq with rfl | hr
      · exact .inr (.up .here hk hd hq)
      · exact .inl hr
    · exact .inr (.up hqp hk hd hq)

/-- From an owner the search does not go on. -/
theorem Passed.eq_of_registered {ps : List Provider} {ty : Ty} {p q : Nat} {k : Provider}
    {d : ServiceDescriptor}
    (h : Passed ps ty p q) (hk : ps[p]? = some k) (hd : k.descriptor ty = some d) : q = p := by
  induction h with
  | here => rfl
  | up _ hk' hd' hq' ih =>
    rw [ih] at hk'
    cases hk.symm.trans hk'
    rw [hd] at hd'
    cases hd'

/-- A service has one owner from where it is asked for. -/
theorem Owner.unique {ps : List Provider} {ty : Ty} {asked p q : Nat} (h : Owner ps ty asked p)
    (h' : Owner ps ty asked q) : p = q := by
  obtain ⟨hp, k, d, hk, hd⟩ := h
  obtain ⟨hq, k', d', hk', hd'⟩ := h'
  rcases hp.linear hq with hpq | hqp
  · exact (hpq.eq_of_registered hk hd).symm
  · exact hqp.eq_of_registered hk' hd'

/-- What a step makes of the providers. -/
theorem Moves.grows {s u : World} {t : Nat} {th : Thread} {a : Act} (h : Moves s t th a u) :
    Grows s.providers u.providers := by
  cases h with
  | enters hfree hparent =>
    exact fun p k hk => ⟨k, getElem?_concat_iff.2 (.inl hk), rfl, rfl, fun _ => rfl⟩
  | produces hth hf hk hd => exact grows_set hk rfl rfl fun _ => rfl
  | pops hth hk hi ha => exact grows_set hk rfl rfl fun _ => rfl
  | is_left hth hk hexits => exact grows_set hk rfl rfl fun _ => rfl
  | _ => exact .refl _

/-! ## What every run keeps -/

/-- A level fits the providers: a call has passed the providers before its own, and behind the first
lookup its own has the service. -/
def Frame.Fits (ps : List Provider) : Frame → Prop
  | .looking c => Passed ps c.ty c.asked c.provider
  | .locking c => Owner ps c.ty c.asked c.provider
  | .rechecking c => Owner ps c.ty c.asked c.provider
  | .wiring c _ _ _ => Owner ps c.ty c.asked c.provider
  | .running c _ _ => Owner ps c.ty c.asked c.provider
  | _ => True

theorem Frame.Fits.grows {ps qs : List Provider} (hg : Grows ps qs) {f : Frame} (h : f.Fits ps) :
    f.Fits qs := by
  cases f with
  | looking c => exact Passed.grows hg h
  | locking c => exact Owner.grows hg h
  | rechecking c => exact Owner.grows hg h
  | wiring c found deps injected => exact Owner.grows hg h
  | running c found injected => exact Owner.grows hg h
  | _ => trivial

/-- A creation is the owner's. -/
theorem Frame.Fits.owner {ps : List Provider} {f : Frame} {c : Call} {e : Option Nat}
    (h : f.Fits ps) (hcreates : f.creates = some (c, e)) : Owner ps c.ty c.asked c.provider := by
  cases f with
  | wiring c found deps injected =>
    cases hcreates
    exact h
  | running c found injected =>
    cases hcreates
    exact h
  | _ => cases hcreates

/-- The search knows the answer itself: a provider on its way is asked for the provider, or for its
scope. -/
def WellKnown (ps : List Provider) (ty : Ty) (asked : Nat) : Prop :=
  ty = serviceProvider ∨ ∃ p k, Passed ps ty asked p ∧ ps[p]? = some k ∧ ty = k.scope_type

theorem WellKnown.grows {ps qs : List Provider} {ty : Ty} {asked : Nat} (hg : Grows ps qs)
    (h : WellKnown ps ty asked) : WellKnown qs ty asked := by
  rcases h with h | ⟨p, k, hpassed, hk, hty⟩
  · exact .inl h
  · obtain ⟨k', hk', -, hscope, -⟩ := hg p k hk
    exact .inr ⟨p, k', hpassed.grows hg, hk', hty.trans hscope.symm⟩

/-- A resolution returned an instance of the owner, or something well known. -/
def Returned.Fits (s : World) (e : Returned) : Prop :=
  match e.result with
  | .instance i => ∃ a, s.instances[i]? = some a ∧ a.ty = e.ty ∧ Owner s.providers
    e.ty e.asked a.provider
  | _ => WellKnown s.providers e.ty e.asked

/-- What every run keeps. -/
structure Sound (s : World) : Prop where
  frames : ∀ (t : Nat) (th : Thread), s.threads[t]? = some th → ∀ f ∈ th.stack, f.Fits s.providers
  cached : ∀ (p : Nat) (k : Provider) (ty : Ty) (i : Nat), s.providers[p]? = some k →
    Dict.get? ty k.services = some i →
      (∃ a, s.instances[i]? = some a ∧ a.provider = p ∧ a.ty = ty) ∧ ∃ d, k.descriptor ty = some d
  exclusive : ∀ (t u : Nat) (th thu : Thread) (p : Nat), s.threads[t]? = some th →
    s.threads[u]? = some thu → th.holds p = true → thu.holds p = true → t = u
  returned : ∀ e ∈ s.returned, e.Fits s

namespace Sound

variable {s u : World} {t : Nat} {th : Thread}

/-- The start is sound. -/
theorem start (n : Nat) : Sound (.start n) := by
  have hidle : ∀ (t : Nat) (th : Thread),
      (World.start n).threads[t]? = some th → th.stack = [] := by
    intro t th hth
    rw [(List.mem_replicate.1 (List.mem_of_getElem? hth)).2]
  refine ⟨fun t th hth f hf => ?_, fun p k ty i h => (by cases h),
    fun t u th thu p hth hthu h h' => ?_, fun e h => absurd h List.not_mem_nil⟩
  · rw [hidle t th hth] at hf
    exact absurd hf List.not_mem_nil
  · rw [Thread.holds, hidle t th hth] at h
    cases h

/-- A thread that holds the lock holds it at one of its levels. -/
theorem holds_iff {p : Nat} : th.holds p = true ↔ ∃ f ∈ th.stack, f.holds = some p := by
  rw [Thread.holds, List.any_eq_true]
  exact exists_congr fun f => and_congr_right fun _ => decide_eq_true_iff

/-- Thread `t` moves on: its new levels fit, and it holds no new lock that another thread holds. -/
theorem moved (h : Sound s) (hth : s.threads[t]? = some th) {th' : Thread}
    (hthreads : u.threads = s.threads.set t th')
    (hgrows : Grows s.providers u.providers)
    (hframes : ∀ f ∈ th'.stack, f ∈ th.stack ∨ f.Fits u.providers)
    (hholds : ∀ p, th'.holds p = true → th.holds p = true ∨
      ∀ v thv, v ≠ t → s.threads[v]? = some thv → thv.holds p = false)
    (hcached : ∀ (p : Nat) (k : Provider) (ty : Ty) (i : Nat), u.providers[p]? = some k →
      Dict.get? ty k.services = some i →
        (∃ a, u.instances[i]? = some a ∧ a.provider = p ∧ a.ty = ty) ∧ ∃ d,
        k.descriptor ty = some d)
    (hreturned : ∀ e ∈ u.returned, e.Fits u) : Sound u := by
  refine ⟨fun v thv hv f hf => ?_, hcached, fun v w thv thw p hv hw hpv hpw => ?_, hreturned⟩
  · rw [hthreads, getElem?_set_iff hth] at hv
    split at hv
    · subst hv
      rcases hframes f hf with hold | hnew
      · exact (h.frames t th hth f hold).grows hgrows
      · exact hnew
    · exact (h.frames v thv hv f hf).grows hgrows
  · rw [hthreads, getElem?_set_iff hth] at hv hw
    -- a lock is held by one thread before, and a new one by no other
    have hone : ∀ {v : Nat} {thv : Thread}, v ≠ t → s.threads[v]? = some thv → thv.holds p = true →
        th'.holds p = true → False := by
      intro v thv hne hv hpv hp'
      rcases hholds p hp' with hold | hfree
      · exact hne (h.exclusive v t thv th p hv hth hpv hold)
      · rw [hfree v thv hne hv] at hpv
        cases hpv
    split at hv
    · rename_i hvt
      subst hv
      split at hw
      · rename_i hwt
        exact hvt.symm.trans hwt
      · rename_i hwt
        exact (hone (Ne.symm hwt) hw hpw hpv).elim
    · rename_i hvt
      split at hw
      · subst hw
        exact (hone (Ne.symm hvt) hv hpv hpw).elim
      · exact h.exclusive v w thv thw p hv hw hpv hpw

/-- The levels of a thread that moves on: old ones, and new ones that fit and take no lock. -/
def Follows (th th' : Thread) (ps : List Provider) : Prop :=
  ∀ f ∈ th'.stack, f ∈ th.stack ∨ f.Fits ps ∧ (f.holds = none ∨ ∃ g ∈ th.stack, g.holds = f.holds)

theorem Follows.holds {th' : Thread} {ps : List Provider} (h : Follows th th' ps) {p : Nat}
    (hp : th'.holds p = true) : th.holds p = true := by
  obtain ⟨f, hf, hholds⟩ := holds_iff.1 hp
  rcases h f hf with hold | ⟨-, hnone | ⟨g, hg, hsame⟩⟩
  · exact holds_iff.2 ⟨f, hold, hholds⟩
  · rw [hnone] at hholds
    cases hholds
  · exact holds_iff.2 ⟨g, hg, hsame.trans hholds⟩

/-- A thread moves on, with what else changes. -/
theorem follows (h : Sound s) (hth : s.threads[t]? = some th) {th' : Thread}
    (hthreads : u.threads = s.threads.set t th') (hgrows : Grows s.providers u.providers)
    (hfollows : Follows th th' u.providers)
    (hcached : ∀ (p : Nat) (k : Provider) (ty : Ty) (i : Nat), u.providers[p]? = some k →
      Dict.get? ty k.services = some i →
        (∃ a, u.instances[i]? = some a ∧ a.provider = p ∧ a.ty = ty) ∧ ∃ d,
        k.descriptor ty = some d)
    (hreturned : ∀ e ∈ u.returned, e.Fits u) : Sound u :=
  h.moved hth hthreads hgrows (fun f hf => (hfollows f hf).imp_right And.left)
    (fun _ hp => .inl (hfollows.holds hp)) hcached hreturned

/-- The same with nothing changed but the thread. -/
theorem goes (h : Sound s) (hth : s.threads[t]? = some th) {th' : Thread}
    (hfollows : Follows th th' s.providers) :
    Sound { s with threads := s.threads.set t th' } :=
  h.follows hth rfl (.refl _) hfollows h.cached h.returned

theorem Follows.of_subset {th' : Thread} {ps : List Provider} (h : th'.stack ⊆ th.stack) :
    Follows th th' ps :=
  fun _ hf => .inl (h hf)

/-- A new level on top of old ones. -/
theorem Follows.cons {f : Frame} {stack : List Frame} {reply : Option Reply} {ps : List Provider}
    (hf : f.Fits ps ∧ (f.holds = none ∨ ∃ g ∈ th.stack, g.holds = f.holds))
    (hstack : Follows th ⟨stack, none⟩ ps) : Follows th ⟨f :: stack, reply⟩ ps := by
  intro g hg
  rcases List.mem_cons.1 hg with rfl | hg
  · exact .inr hf
  · exact hstack g hg

/-- What was cached stays so when a provider's other fields change. -/
theorem cached_set (h : Sound s) {p : Nat} {k k' : Provider} (hk : s.providers[p]? = some k)
    (hservices : k'.services = k.services) (hdescriptor : ∀ ty, k'.descriptor ty = k.descriptor ty)
    (q : Nat) (kq : Provider) (ty : Ty) (i : Nat) (hq : (s.providers.set p k')[q]? = some kq)
    (hi : Dict.get? ty kq.services = some i) :
    (∃ a, s.instances[i]? = some a ∧ a.provider = q ∧ a.ty = ty) ∧ ∃ d,
    kq.descriptor ty = some d := by
  rw [getElem?_set_iff hk] at hq
  split at hq
  · rename_i heq
    subst heq
    subst hq
    rw [hservices] at hi
    rw [hdescriptor]
    exact h.cached p k ty i hk hi
  · exact h.cached q kq ty i hq hi

/-- A resolution that returned fits, also when there are more providers and instances. -/
theorem returned_grows {e : Returned} (h : e.Fits s) (hgrows : Grows s.providers u.providers)
    (hinstances : ∀ (i : Nat) (a : Instance), s.instances[i]? = some a → u.instances[i]? = some a) :
    e.Fits u := by
  obtain ⟨asked, ty, r⟩ := e
  cases r with
  | «instance» i =>
    obtain ⟨a, ha, hty, howner⟩ := h
    exact ⟨a, hinstances i a ha, hty, howner.grows hgrows⟩
  | _ => exact WellKnown.grows hgrows h

theorem returns (h : Sound s) (hth : s.threads[t]? = some th) {c : Call} {r : Resolved}
    {stack : List Frame}
    (hstack : stack ⊆ th.stack) (hr : Returned.Fits s ⟨c.asked, c.ty, r⟩) :
    Sound (s.reply t c r stack) := by
  refine h.follows hth rfl (.refl _) (.of_subset hstack) h.cached fun e he => ?_
  rcases List.mem_append.1 he with he | he
  · exact h.returned e he
  · rw [List.mem_singleton.1 he]
    exact hr

/-- The store of a new service is sound. -/
theorem stores (h : Sound s) (hth : s.threads[t]? = some th) {c : Call} {stack : List Frame}
    {k : Provider} {d : ServiceDescriptor} {injected : List Resolved} (hstack : stack ⊆ th.stack)
    (hk : s.providers[c.provider]? = some k) (hd : k.descriptor c.ty = some d)
    (howner : Owner s.providers c.ty c.asked c.provider) :
    Sound ((s.store c k d injected).reply t c (.instance s.instances.length) stack) := by
  have hgrows : Grows s.providers (s.store c k d injected).providers :=
    grows_set hk rfl rfl fun _ => rfl
  have hinstances : ∀ (i : Nat) (a : Instance), s.instances[i]? = some a →
      (s.store c k d injected).instances[i]? = some a := fun i a ha =>
        getElem?_concat_iff.2 (.inl ha)
  -- the cache of the owner has the new entry; the values handed out were right and stay so
  refine h.follows hth rfl hgrows (.of_subset hstack) (fun p kp ty i hp hi => ?_) fun e he => ?_
  · have hp' : (s.providers.set c.provider _)[p]? = some kp := hp
    rw [getElem?_set_iff hk] at hp'
    split at hp'
    · rename_i heq
      subst heq
      subst hp'
      rw [Dict.get?_set] at hi
      split at hi
      · rename_i hty
        cases hi
        -- the entry that is read is the new one: its instance is the last
        exact ⟨⟨_, getElem?_concat_iff.2 (.inr ⟨rfl, rfl⟩), rfl, hty⟩, d, hty ▸ hd⟩
      · obtain ⟨⟨a, ha, hfits⟩, hdescriptor⟩ := h.cached _ k ty i hk hi
        exact ⟨⟨a, hinstances i a ha, hfits⟩, hdescriptor⟩
    · obtain ⟨⟨a, ha, hfits⟩, hdescriptor⟩ := h.cached p kp ty i hp' hi
      exact ⟨⟨a, hinstances i a ha, hfits⟩, hdescriptor⟩
  · rcases List.mem_append.1 he with he | he
    · exact returned_grows (h.returned e he) hgrows hinstances
    · rw [List.mem_singleton.1 he]
      exact ⟨_, getElem?_concat_iff.2 (.inr ⟨rfl, rfl⟩), rfl, howner.grows hgrows⟩

/-- Every move keeps the state sound. -/
theorem moves {a : Act} (h : Sound s) (hth : s.threads[t]? = some th) (hmoves : Moves s t th a u) :
    Sound u := by
  have hfits := h.frames t th hth
  cases hmoves with
  | asks hfree hp =>
    exact h.goes hth (.cons ⟨.here, .inl rfl⟩ (.of_subset (List.Subset.refl _)))
  -- The new provider stands behind the others, and its cache is empty.
  | @enters parent descriptors scopeType hfree hparent =>
    have hgrows : Grows s.providers (s.providers ++ [World.provide parent descriptors scopeType]) :=
      fun p k hk => ⟨k, getElem?_concat_iff.2 (.inl hk), rfl, rfl, fun _ => rfl⟩
    refine h.follows hth rfl hgrows (.cons ⟨trivial, .inl rfl⟩ (.of_subset (List.Subset.refl _)))
      (fun p k ty i hp hi => ?_) fun e he =>
        returned_grows (h.returned e he) hgrows fun _ _ ha => ha
    rcases getElem?_concat_iff.1 hp with hp | ⟨-, rfl⟩
    · exact h.cached p k ty i hp hi
    · cases hi
  | leaves hth' =>
    subst hth'
    exact h.goes hth (.cons ⟨trivial, .inl rfl⟩ (.of_subset (List.subset_cons_self _ _)))
  -- The instance is stored at the provider where its type is owned.
  | produces hth' hf hk hd =>
    subst hth'
    refine h.stores hth (List.subset_cons_self _ _) hk hd ?_
    have hfit := hfits _ List.mem_cons_self
    rcases hf with ⟨found, rfl⟩ | ⟨found, rfl⟩
    · exact hfit
    · exact hfit
  | fails hth' =>
    subst hth'
    exact h.goes hth (.of_subset (List.subset_cons_self _ _))
  | cleaned hth' =>
    subst hth'
    exact h.goes hth (.of_subset (List.subset_cons_self _ _))
  | @knows truthy c stack r hth' hr hty =>
    subst hth'
    have hpassed : Passed s.providers c.ty c.asked c.provider := hfits _ List.mem_cons_self
    refine h.returns hth (List.subset_cons_self _ _) ?_
    have hknown : WellKnown s.providers c.ty c.asked := hty.imp_right fun ⟨k, hk, hscope⟩ =>
      ⟨c.provider, k, hpassed, hk, hscope⟩
    cases r with
    | «instance» i => exact absurd rfl (hr i)
    | _ => exact hknown
  -- A cache holds instances of its own provider only, and the search has passed all the inner ones.
  | @finds a f c stack k i hth' hf hk hi =>
    subst hth'
    refine h.returns hth (List.subset_cons_self _ _) ?_
    obtain ⟨⟨a, ha, hprovider, hty⟩, d, hd⟩ := h.cached _ k _ i hk hi
    have hpassed : Passed s.providers c.ty c.asked c.provider := by
      have hfit := hfits _ List.mem_cons_self
      rcases hf with rfl | rfl
      · exact hfit
      · exact hfit.1
    exact ⟨a, ha, hty, hprovider ▸ ⟨hpassed, k, d, hk, hd⟩⟩
  | @misses truthy c stack k d hth' hk hd =>
    subst hth'
    have hpassed : Passed s.providers c.ty c.asked c.provider := hfits _ List.mem_cons_self
    exact h.goes hth
      (.cons ⟨⟨hpassed, k, d, hk, hd⟩, .inl rfl⟩ (.of_subset (List.subset_cons_self _ _)))
  -- The search goes one provider up: this one declares no descriptor for the type.
  | @climbs truthy c stack k q hth' hk hd hq =>
    subst hth'
    have hpassed : Passed s.providers c.ty c.asked c.provider := hfits _ List.mem_cons_self
    exact h.goes hth
      (.cons ⟨.up hpassed hk hd hq, .inl rfl⟩ (.of_subset (List.subset_cons_self _ _)))
  | unregistered hth' =>
    subst hth'
    exact h.goes hth (.of_subset (List.subset_cons_self _ _))
  | @locks c stack hth' hlock =>
    subst hth'
    have howner : Owner s.providers c.ty c.asked c.provider := hfits _ List.mem_cons_self
    refine h.moved hth rfl (.refl _) (fun f hf => ?_) (fun p hp => ?_) h.cached h.returned
    · rcases List.mem_cons.1 hf with rfl | hf
      · exact .inr howner
      · exact .inl (List.mem_cons_of_mem _ hf)
    · obtain ⟨f, hf, hholds⟩ := holds_iff.1 hp
      rcases List.mem_cons.1 hf with rfl | hf
      · cases hholds
        -- The lock was free, so this thread is its one holder.
        exact .inr fun v thv hv hthv => hlock v thv hv hthv
      · exact .inl (holds_iff.2 ⟨f, List.mem_cons_of_mem _ hf, hholds⟩)
  | @begins truthy c stack k d hth' hk hd hcached =>
    subst hth'
    have howner : Owner s.providers c.ty c.asked c.provider := hfits _ List.mem_cons_self
    exact h.goes hth (.cons ⟨howner, .inr ⟨_, List.mem_cons_self, rfl⟩⟩
      (.of_subset (List.subset_cons_self _ _)))
  -- The dependency is asked for at the provider that makes its dependent.
  | @wires c found dep deps injected stack hth' =>
    subst hth'
    have howner : Owner s.providers c.ty c.asked c.provider := hfits _ List.mem_cons_self
    refine h.goes hth
      (.cons ⟨.here, .inl rfl⟩ (.cons ⟨howner, .inr ⟨_, List.mem_cons_self, rfl⟩⟩ ?_))
    exact .of_subset (List.subset_cons_self _ _)
  | @calls c found injected stack hth' =>
    subst hth'
    have howner : Owner s.providers c.ty c.asked c.provider := hfits _ List.mem_cons_self
    exact h.goes hth (.cons ⟨howner, .inr ⟨_, List.mem_cons_self, rfl⟩⟩
      (.of_subset (List.subset_cons_self _ _)))
  | @injects c found deps injected r stack hth' =>
    subst hth'
    have howner : Owner s.providers c.ty c.asked c.provider := hfits _ List.mem_cons_self
    exact h.goes hth (.cons ⟨howner, .inr ⟨_, List.mem_cons_self, rfl⟩⟩
      (.of_subset (List.subset_cons_self _ _)))
  | aborts hth' =>
    subst hth'
    exact h.goes hth (.of_subset (List.subset_cons_self _ _))
  | gives_up hth' =>
    subst hth'
    exact h.goes hth (.cons ⟨trivial, .inl rfl⟩ (.of_subset (List.subset_cons_self _ _)))
  | goes_on hreply htop => exact h.goes hth (.of_subset (List.Subset.refl _))
  | resolves hth' =>
    subst hth'
    refine h.goes hth (.cons ⟨.here, .inl rfl⟩ (.cons ⟨trivial, .inl rfl⟩ ?_))
    exact .of_subset (List.subset_cons_self _ _)
  | opens hth' =>
    subst hth'
    exact h.goes hth (.cons ⟨trivial, .inl rfl⟩ (.of_subset (List.subset_cons_self _ _)))
  | @pops p stack k i a hth' hk hi ha =>
    subst hth'
    have hgrows : Grows s.providers (s.close p k i).providers := grows_set hk rfl rfl fun _ => rfl
    refine h.follows hth rfl hgrows ?_ (h.cached_set hk rfl fun _ => rfl)
      fun e he => returned_grows (h.returned e he) hgrows fun _ _ ha => ha
    split
    · exact .cons ⟨trivial, .inl rfl⟩ (.of_subset (List.Subset.refl _))
    · exact .of_subset (List.Subset.refl _)
  | @is_left p stack k hth' hk hexits =>
    subst hth'
    have hgrows : Grows s.providers (s.providers.set p { k with left := true }) :=
      grows_set hk rfl rfl fun _ => rfl
    exact h.follows hth rfl hgrows (.of_subset (List.subset_cons_self _ _))
      (h.cached_set hk rfl fun _ => rfl)
      fun e he => returned_grows (h.returned e he) hgrows fun _ _ ha => ha

end Sound

end LocalPost.Di
