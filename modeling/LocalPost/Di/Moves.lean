import LocalPost.Di.State

/-!
# What a step of a thread does

`Moves` lists the steps with the guards they are taken under. The parent, the registry and the scope
type of a provider never change (`Grows`), so the way from the provider that was asked to the one
that owns the service stays what it was (`Passed`).
-/

set_option autoImplicit false

namespace LocalPost.Di

open LocalPost.Core

/-- What a step of thread `t` from `th` makes of the world. -/
inductive Moves (s : World) (t : Nat) (th : Thread) : Act → World → Prop where
  -- A thread that is not in the middle of a resolution resolves a type, or enters a scope.
  | asks {p : Nat} {ty : Ty} (hfree : th.isFree = true) (hp : p < s.providers.length) :
      Moves s t th (.ask t p ty) (s.goes t (.looking ⟨p, p, ty⟩ :: th.stack))
  | enters {parent : Option Nat} {descriptors : List ServiceDescriptor} {scopeType : Ty}
      (hfree : th.isFree = true) (hparent : ∀ q, parent = some q → q < s.providers.length) :
      Moves s t th (.enter t parent descriptors scopeType)
        (s.enter t (World.provide parent descriptors scopeType) th.stack)
  | leaves {p : Nat} {stack : List Frame} (hth : th = ⟨.block p :: stack, none⟩) :
      Moves s t th (.leave t) (s.goes t (.leaving p :: stack))
  -- The factory returns; a registered value is there without a call.
  | produces {a : Act} {f : Frame} {c : Call} {injected : List Resolved} {stack : List Frame}
    {k : Provider}
      {d : ServiceDescriptor} (hth : th = ⟨f :: stack, none⟩)
      (hf : (∃ found, f = .running c found injected) ∨ ∃ found, f = .wiring c found [] injected)
      (hk : s.providers[c.provider]? = some k) (hd : k.descriptor c.ty = some d) :
      Moves s t th a ((s.store c k d injected).reply t c (.instance s.instances.length) stack)
  | fails {c : Call} {found : Option Nat} {injected : List Resolved} {stack : List Frame}
      (hth : th = ⟨.running c found injected :: stack, none⟩) :
      Moves s t th (.fail t) (s.raise t stack)
  | cleaned {i : Nat} {stack : List Frame} (hth : th = ⟨.closing i :: stack, none⟩) :
      Moves s t th (.cleaned t) (s.goes t stack)
  -- `ServiceProvider` and the type of the scope are answered without a descriptor.
  | knows {truthy : Bool} {c : Call} {stack : List Frame} {r : Resolved}
      (hth : th = ⟨.looking c :: stack, none⟩)
      (hr : ∀ i, r ≠ .instance i)
      (hty : c.ty = serviceProvider ∨ ∃ k, s.providers[c.provider]? = some k ∧
        c.ty = k.scope_type) :
      Moves s t th (.lookup t truthy) (s.reply t c r stack)
  | finds {a : Act} {f : Frame} {c : Call} {stack : List Frame} {k : Provider} {i : Nat}
      (hth : th = ⟨f :: stack, none⟩) (hf : f = .looking c ∨ f = .rechecking c)
      (hk : s.providers[c.provider]? = some k) (hi : Dict.get? c.ty k.services = some i) :
      Moves s t th a (s.reply t c (.instance i) stack)
  -- There is a descriptor but no instance yet: the slow path, under the lock of the provider.
  | misses {truthy : Bool} {c : Call} {stack : List Frame} {k : Provider} {d : ServiceDescriptor}
      (hth : th = ⟨.looking c :: stack, none⟩) (hk : s.providers[c.provider]? = some k)
      (hd : k.descriptor c.ty = some d) :
      Moves s t th (.lookup t truthy) (s.goes t (.locking c :: stack))
  -- Without a descriptor here the parent is asked; at the root the type is unregistered.
  | climbs {truthy : Bool} {c : Call} {stack : List Frame} {k : Provider} {q : Nat}
      (hth : th = ⟨.looking c :: stack, none⟩) (hk : s.providers[c.provider]? = some k)
      (hd : k.descriptor c.ty = none) (hq : k.parent = some q) :
      Moves s t th (.lookup t truthy) (s.goes t (.looking { c with provider := q } :: stack))
  | unregistered {truthy : Bool} {c : Call} {stack : List Frame}
    (hth : th = ⟨.looking c :: stack, none⟩) :
      Moves s t th (.lookup t truthy) (s.raise t stack)
  -- The lock is reentrant: only another thread that holds it keeps this one out.
  | locks {c : Call} {stack : List Frame} (hth : th = ⟨.locking c :: stack, none⟩)
      (hlock : ∀ u thu, u ≠ t → s.threads[u]? = some thu → thu.holds c.provider = false) :
      Moves s t th (.lock t) (s.goes t (.rechecking c :: stack))
  | begins {truthy : Bool} {c : Call} {stack : List Frame} {k : Provider} {d : ServiceDescriptor}
      (hth : th = ⟨.rechecking c :: stack, none⟩) (hk : s.providers[c.provider]? = some k)
      (hd : k.descriptor c.ty = some d) (hcached : World.cached k c.ty truthy = none) :
      Moves s t th (.recheck t truthy)
        (s.goes t (.wiring c (Dict.get? c.ty k.services) d.factory.deps [] :: stack))
  -- The dependencies are asked for one after another, each at the provider of the call.
  | wires {c : Call} {found : Option Nat} {dep : Ty} {deps : List Ty} {injected : List Resolved}
      {stack : List Frame} (hth : th = ⟨.wiring c found (dep :: deps) injected :: stack, none⟩) :
      Moves s t th (.wire t)
        (s.goes t
          (.looking ⟨c.provider, c.provider, dep⟩ :: .wiring c found deps injected :: stack))
  | calls {c : Call} {found : Option Nat} {injected : List Resolved} {stack : List Frame}
      (hth : th = ⟨.wiring c found [] injected :: stack, none⟩) :
      Moves s t th (.wire t) (s.goes t (.running c found injected :: stack))
  | injects {c : Call} {found : Option Nat} {deps : List Ty} {injected : List Resolved}
    {r : Resolved}
      {stack : List Frame} (hth : th = ⟨.wiring c found deps injected :: stack, some (.value r)⟩) :
      Moves s t th (.deliver t) (s.goes t (.wiring c found deps (injected ++ [r]) :: stack))
  -- What a dependency raises goes on through the frames of its dependents.
  | aborts {c : Call} {found : Option Nat} {deps : List Ty} {injected : List Resolved}
    {stack : List Frame}
      (hth : th = ⟨.wiring c found deps injected :: stack, some .raised⟩) :
      Moves s t th (.deliver t) (s.raise t stack)
  | gives_up {p : Nat} {eager : List Ty} {stack : List Frame}
      (hth : th = ⟨.entering p eager :: stack, some .raised⟩) :
      Moves s t th (.deliver t) (s.goes t (.leaving p :: stack))
  | goes_on {reply : Reply} (hreply : th.reply = some reply)
      (htop : ∀ f stack, th.stack = f :: stack → f.holds = none ∨ ∃ c found injected,
        f = .running c found injected) :
      Moves s t th (.deliver t) (s.goes t th.stack)
  | resolves {p : Nat} {ty : Ty} {eager : List Ty} {stack : List Frame}
      (hth : th = ⟨.entering p (ty :: eager) :: stack, none⟩) :
      Moves s t th (.eager t) (s.goes t (.looking ⟨p, p, ty⟩ :: .entering p eager :: stack))
  | opens {p : Nat} {stack : List Frame} (hth : th = ⟨.entering p [] :: stack, none⟩) :
      Moves s t th (.eager t) (s.goes t (.block p :: stack))
  -- `__exit__` empties the exit stack from its end.
  | pops {p : Nat} {stack : List Frame} {k : Provider} {i : Nat} {a : Instance}
      (hth : th = ⟨.leaving p :: stack, none⟩) (hk : s.providers[p]? = some k)
      (hi : k.exits.getLast? = some i) (ha : s.instances[i]? = some a) :
      Moves s t th (.pop t) ((s.close p k i).goes t
        (if a.factory.cleansUp then .closing i :: .leaving p :: stack else .leaving p :: stack))
  | is_left {p : Nat} {stack : List Frame} {k : Provider} (hth : th = ⟨.leaving p :: stack, none⟩)
      (hk : s.providers[p]? = some k) (hexits : k.exits = []) :
      Moves s t th (.pop t)
        (({ s with providers := s.providers.set p { k with left := true } }).goes t stack)

namespace World

variable {s u : World} {t : Nat} {stack : List Frame} {c : Call}

theorem cached_some {k : Provider} {ty : Ty} {truthy : Bool} {i : Nat}
    (h : cached k ty truthy = some i) :
    Dict.get? ty k.services = some i := (Option.filter_eq_some_iff.1 h).1

/-- A lookup without the lock is one of its moves. -/
theorem moves_lookup {truthy : Bool} (h : s.lookup t truthy c stack = some u) :
    Moves s t ⟨.looking c :: stack, none⟩ (.lookup t truthy) u := by
  obtain ⟨k, hk, rfl⟩ := Option.map_eq_some_iff.1 h
  split
  · rename_i hty
    exact .knows rfl (fun i h => (by cases h)) (.inl hty)
  · split
    · rename_i hty
      exact .knows rfl (fun i h => (by cases h)) (.inr ⟨k, hk, hty⟩)
    · split
      · rename_i i hcached
        exact .finds rfl (.inl rfl) hk (cached_some hcached)
      · split
        · rename_i d hd
          exact .misses rfl hk hd
        · rename_i hd
          split
          · rename_i q hq
            exact .climbs rfl hk hd hq
          · exact .unregistered rfl

/-- Taking the lock is one of its moves. -/
theorem moves_lock (h : s.lock t c stack = some u) :
    Moves s t ⟨.locking c :: stack, none⟩ (.lock t) u := by
  rw [lock] at h
  split at h
  · rename_i hall
    cases h
    refine .locks rfl fun v thv hv hthv => ?_
    have hlt := (List.getElem?_eq_some_iff.1 hthv).1
    have hfree := List.all_eq_true.1 hall v (List.mem_range.2 hlt)
    rw [decide_eq_false hv, hthv] at hfree
    simpa using hfree
  · cases h

/-- The second lookup, under the lock, is one of its moves. -/
theorem moves_recheck {truthy : Bool} (h : s.recheck t truthy c stack = some u) :
    Moves s t ⟨.rechecking c :: stack, none⟩ (.recheck t truthy) u := by
  obtain ⟨k, hk, h⟩ := Option.bind_eq_some_iff.1 h
  split at h
  · rename_i i hcached
    cases h
    exact .finds rfl (.inr rfl) hk (cached_some hcached)
  · rename_i hcached
    obtain ⟨d, hd, rfl⟩ := Option.map_eq_some_iff.1 h
    exact .begins rfl hk hd hcached

theorem moves_produce {a : Act} {f : Frame} {injected : List Resolved}
    (h : s.produce t c injected stack = some u)
    (hf : (∃ found, f = .running c found injected) ∨ ∃ found, f = .wiring c found [] injected) :
    Moves s t ⟨f :: stack, none⟩ a u := by
  obtain ⟨k, hk, h⟩ := Option.bind_eq_some_iff.1 h
  obtain ⟨d, hd, rfl⟩ := Option.map_eq_some_iff.1 h
  exact .produces rfl hf hk hd

theorem moves_call {found : Option Nat} {injected : List Resolved}
    (h : s.call t c found injected stack = some u) :
    Moves s t ⟨.wiring c found [] injected :: stack, none⟩ (.wire t) u := by
  obtain ⟨k, hk, h⟩ := Option.bind_eq_some_iff.1 h
  obtain ⟨d, hd, h⟩ := Option.bind_eq_some_iff.1 h
  split at h
  · exact moves_produce h (.inr ⟨found, rfl⟩)
  · cases h
    exact .calls rfl

/-- A turn of the exit stack is one of its moves. -/
theorem moves_pop {p : Nat} (h : s.pop t p stack = some u) :
    Moves s t ⟨.leaving p :: stack, none⟩ (.pop t) u := by
  obtain ⟨k, hk, h⟩ := Option.bind_eq_some_iff.1 h
  split at h
  · rename_i i hi
    obtain ⟨a, ha, rfl⟩ := Option.map_eq_some_iff.1 h
    exact .pops rfl hk hi ha
  · rename_i hnone
    cases h
    exact .is_left rfl hk (List.getLast?_eq_none_iff.1 hnone)

/-- The delivery of a reply is one of its moves. -/
theorem moves_deliver {reply : Reply} (h : s.deliver t reply stack = some u) :
    Moves s t ⟨stack, some reply⟩ (.deliver t) u := by
  rw [deliver.eq_def] at h
  split at h
  · cases h
    exact .injects rfl
  · cases h
    exact .aborts rfl
  · cases h
    exact .goes_on rfl fun f stack h => by cases h; exact .inl rfl
  · cases h
    exact .gives_up rfl
  · cases h
    exact .goes_on rfl fun f stack h => by cases h
  · cases h
    exact .goes_on rfl fun f stack h => by cases h; exact .inl rfl
  · cases h
    exact .goes_on rfl fun f stack h => by cases h; exact .inl rfl
  · cases h
    exact .goes_on rfl fun f stack h => by cases h; exact .inr ⟨_, _, _, rfl⟩
  · cases h

/-- Every step is one of the moves. -/
theorem moves_of_step {a : Act} (h : s.step a = some u) :
    ∃ th, s.threads[a.thread]? = some th ∧ Moves s a.thread th a u := by
  obtain ⟨th, hth, h⟩ := Option.bind_eq_some_iff.1 h
  refine ⟨th, hth, ?_⟩
  rw [stepOn.eq_def] at h
  split at h
  · split at h
    · rename_i hguard
      cases h
      obtain ⟨hfree, hp⟩ := Bool.and_eq_true_iff.1 hguard
      exact .asks hfree (of_decide_eq_true hp)
    · cases h
  · split at h
    · rename_i hguard
      cases h
      obtain ⟨hfree, hparent⟩ := Bool.and_eq_true_iff.1 hguard
      refine .enters hfree fun q hq => ?_
      rw [hq] at hparent
      exact of_decide_eq_true hparent
    · cases h
  -- A reply is there: it is delivered before anything else.
  · obtain ⟨reply, hreply, h⟩ := Option.bind_eq_some_iff.1 h
    obtain ⟨stack, reply'⟩ := th
    cases hreply
    exact moves_deliver h
  · split at h
    · cases h
    -- No reply: what comes next is up to the topmost frame.
    · rename_i hnone
      obtain ⟨stack, reply⟩ := th
      have hreply : reply = none := by simpa using hnone
      subst hreply
      dsimp only at h
      split at h
      · cases h
        exact .leaves rfl
      · exact moves_produce h (.inl ⟨_, rfl⟩)
      · cases h
        exact .fails rfl
      · cases h
        exact .cleaned rfl
      · exact moves_lookup h
      · exact moves_lock h
      · exact moves_recheck h
      · cases h
        exact .wires rfl
      · exact moves_call h
      · cases h
        exact .resolves rfl
      · cases h
        exact .opens rfl
      · exact moves_pop h
      · cases h

end World

end LocalPost.Di
