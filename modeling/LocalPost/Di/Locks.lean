import Mathlib.Logic.Relation
import LocalPost.Di.Injected

/-!
# The order of the locks

A factory runs under the lock of its provider, and what it resolves may need another lock. The
search for a dependency goes outwards, so a thread that holds a lock asks for those of the providers
around it only. That is an order of the locks, unless the code of a factory asks a provider further
in, or opens a scope (`World.outward`). The proxy `service_provider` does so when an inner scope is
the current one, and then two threads can wait for each other (`waits_for_each_other`).
-/

set_option autoImplicit false

namespace LocalPost.Di

open LocalPost.Core

/-! ## Providers around a provider -/

/-- `q` is the parent of provider `p`. -/
def Parent (ps : List Provider) (p q : Nat) : Prop := ∃ k, ps[p]? = some k ∧ k.parent = some q

/-- `q` is provider `p`, or one around it. -/
def Around (ps : List Provider) : Nat → Nat → Prop := Relation.ReflTransGen (Parent ps)

/-- Provider `p` and those around it, as far as `n` parents go. -/
def outwards (ps : List Provider) : Nat → Nat → List Nat
  | 0, p => [p]
  | n + 1, p => p :: (((ps[p]?).bind Provider.parent).map (outwards ps n)).getD []

/-- The walk outwards meets only providers around the one it starts from. -/
theorem around_of_mem_outwards {ps : List Provider} {n p q : Nat} (h : q ∈ outwards ps n p) :
    Around ps p q := by
  induction n generalizing p with
  | zero =>
    rw [List.mem_singleton.1 h]
    exact .refl
  | succ n ih =>
    rcases List.mem_cons.1 h with rfl | h
    · exact .refl
    · cases hparent : (ps[p]?).bind Provider.parent with
      | none =>
        rw [hparent] at h
        exact absurd h List.not_mem_nil
      | some r =>
        rw [hparent] at h
        exact .head (Option.bind_eq_some_iff.1 hparent) (ih h)

theorem Around.grows {ps qs : List Provider} (hg : Grows ps qs) {p q : Nat} (h : Around ps p q) :
    Around qs p q := by
  induction h with
  | refl => exact .refl
  | tail _ hstep ih =>
    obtain ⟨k, hk, hparent⟩ := hstep
    obtain ⟨k', hk', hparent', -, -⟩ := hg _ k hk
    exact ih.tail ⟨k', hk', hparent'.trans hparent⟩

/-- What is around is older. -/
theorem Around.le {ps : List Provider}
    (hparents : ∀ (p : Nat) (k : Provider) (q : Nat), ps[p]? = some k → k.parent = some q → q < p)
    {p q : Nat} (h : Around ps p q) : q ≤ p := by
  induction h with
  | refl => exact Nat.le_refl _
  | tail _ hstep ih =>
    obtain ⟨k, hk, hq⟩ := hstep
    exact Nat.le_trans (Nat.le_of_lt (hparents _ k _ hk hq)) ih

/-! ## Code under a lock -/

/-- Code of the application that runs under locks resolves from providers around those of all of
them, and opens no scope. -/
def World.outward (s : World) : Act → Bool
  | .ask t p _ => (s.threads[t]?).all fun th => th.stack.all fun f =>
      f.holds.all fun q => (outwards s.providers q q).contains p
  | .enter t _ _ _ => (s.threads[t]?).all fun th => th.stack.all fun f => f.holds.isNone
  | _ => true

/-- The scope that is being entered. -/
def Frame.enters : Frame → Option Nat
  | .entering p _ => some p
  | _ => none

/-- What stands above a lock: calls to the providers around the one whose lock it is, and no scope
that is being entered. -/
def Under (ps : List Provider) (f g : Frame) : Prop :=
  ∀ q, g.holds = some q → f.enters = none ∧ ∀ c, f.call? = some c → Around ps q c.provider

theorem Under.grows {ps qs : List Provider} (hg : Grows ps qs) {f g : Frame} (h : Under ps f g) :
    Under qs f g :=
  fun q hq => ⟨(h q hq).1, fun c hc => ((h q hq).2 c hc).grows hg⟩

/-- A level that neither calls nor enters stands above any lock. -/
theorem Under.quiet {ps : List Provider} {f : Frame} (hcall : f.call? = none)
    (henters : f.enters = none) (g : Frame) : Under ps f g := by
  refine fun q _ => ⟨henters, fun c hc => ?_⟩
  rw [hcall] at hc
  cases hc

/-- Where a level stands, another one may stand whose call is at the same provider or further
out. -/
theorem Under.call {ps : List Provider} {f f' g : Frame} (h : Under ps f g)
    (henters : f'.enters = none)
    (hcall : ∀ c', f'.call? = some c' → ∃ c, f.call? = some c ∧ Around ps c.provider c'.provider) :
    Under ps f' g := by
  refine fun q hq => ⟨henters, fun c' hc' => ?_⟩
  obtain ⟨c, hc, haround⟩ := hcall c' hc'
  exact ((h q hq).2 c hc).trans haround

/-- The stack of every thread keeps the order. -/
def Ordered (s : World) : Prop :=
  ∀ (t : Nat) (th : Thread), s.threads[t]? = some th → th.stack.Pairwise (Under s.providers)

namespace Ordered

variable {s u : World} {t : Nat} {th : Thread}

theorem start (n : Nat) : Ordered (.start n) := by
  intro t th hth
  rw [(List.mem_replicate.1 (List.mem_of_getElem? hth)).2]
  exact .nil

theorem steps (h : Ordered s) (hth : s.threads[t]? = some th) {th' : Thread}
    (hthreads : u.threads = s.threads.set t th') (hgrows : Grows s.providers u.providers)
    (hth' : th'.stack.Pairwise (Under u.providers)) : Ordered u := by
  intro v thv hv
  rw [hthreads, getElem?_set_iff hth] at hv
  split at hv
  · subst hv
    exact hth'
  · exact (h v thv hv).imp fun hunder => hunder.grows hgrows

/-- The lock of the topmost call does not matter to the levels below it. -/
theorem top {ps : List Provider} {f g : Frame} {stack : List Frame}
    (h : (f :: stack).Pairwise (Under ps))
    (hunder : ∀ e ∈ stack, Under ps f e → Under ps g e) : (g :: stack).Pairwise (Under ps) := by
  obtain ⟨hf, hstack⟩ := List.pairwise_cons.1 h
  exact List.pairwise_cons.2 ⟨fun e he => hunder e he (hf e he), hstack⟩

theorem quiet {ps : List Provider} {f g : Frame} {stack : List Frame}
    (h : (f :: stack).Pairwise (Under ps))
    (hcall : g.call? = none) (henters : g.enters = none) : (g :: stack).Pairwise (Under ps) :=
  top h fun e _ _ => .quiet hcall henters e

theorem call {ps : List Provider} {f g : Frame} {c : Call} {stack : List Frame}
    (h : (f :: stack).Pairwise (Under ps)) (hf : f.call? = some c) (hg : g.call? = some c)
    (henters : g.enters = none) : (g :: stack).Pairwise (Under ps) := by
  refine top h fun e _ hunder => hunder.call henters fun c' hc' => ⟨c, hf, ?_⟩
  cases hg.symm.trans hc'
  exact .refl

theorem tail {ps : List Provider} {f : Frame} {stack : List Frame}
    (h : (f :: stack).Pairwise (Under ps)) : stack.Pairwise (Under ps) := (List.pairwise_cons.1 h).2

/-- A factory that resolves outwards stays in the order of the locks. -/
theorem of_asks (h : Ordered s) (hth : s.threads[t]? = some th) {p : Nat} {ty : Ty}
    (hcond : s.outward (.ask t p ty) = true) :
    (.looking ⟨p, p, ty⟩ :: th.stack).Pairwise (Under s.providers) := by
  refine List.pairwise_cons.2 ⟨fun g hg q hq => ⟨rfl, fun c hc => ?_⟩, h t th hth⟩
  have hall : (th.stack.all fun f => f.holds.all fun q => (outwards s.providers q q).contains p) =
      true := by
    simpa only [World.outward, hth, Option.all_some] using hcond
  have hmem := List.all_eq_true.1 hall g hg
  rw [hq] at hmem
  cases hc
  exact around_of_mem_outwards (List.contains_iff_mem.1 hmem)

/-- A scope that is entered under no lock stays in the order of the locks. -/
theorem of_enters (h : Ordered s) (hth : s.threads[t]? = some th) {parent : Option Nat}
    {descriptors : List ServiceDescriptor} {scopeType : Ty}
    (hcond : s.outward (.enter t parent descriptors scopeType) = true) (f : Frame) :
    (f :: th.stack).Pairwise (Under s.providers) := by
  refine List.pairwise_cons.2 ⟨fun g hg q hq => ?_, h t th hth⟩
  have hall : (th.stack.all fun f => f.holds.isNone) = true := by
    simpa only [World.outward, hth, Option.all_some] using hcond
  have hnone := List.all_eq_true.1 hall g hg
  rw [hq] at hnone
  cases hnone

/-- Every outward move keeps the order of the locks. -/
theorem moves {a : Act} (h : Ordered s) (hcond : s.outward a = true) (hth : s.threads[t]? = some th)
    (ht : a.thread = t) (hmoves : Moves s t th a u) : Ordered u := by
  have hstack := h t th hth
  have hgrows := hmoves.grows
  cases hmoves with
  | asks hfree hp => exact h.steps hth rfl hgrows (h.of_asks hth hcond)
  | enters hfree hparent =>
    refine h.steps hth rfl hgrows ?_
    exact (h.of_enters hth hcond _).imp fun hunder => hunder.grows hgrows
  | leaves hth' =>
    subst hth'
    exact h.steps hth rfl hgrows (quiet hstack rfl rfl)
  | produces hth' hf hk hd =>
    subst hth'
    exact h.steps hth rfl hgrows ((tail hstack).imp fun hunder => hunder.grows hgrows)
  | fails hth' =>
    subst hth'
    exact h.steps hth rfl hgrows (tail hstack)
  | cleaned hth' =>
    subst hth'
    exact h.steps hth rfl hgrows (tail hstack)
  | knows hth' hr hty =>
    subst hth'
    exact h.steps hth rfl hgrows (tail hstack)
  | finds hth' hf hk hi =>
    subst hth'
    exact h.steps hth rfl hgrows (tail hstack)
  | misses hth' hk hd =>
    subst hth'
    exact h.steps hth rfl hgrows (call hstack rfl rfl rfl)
  -- The search goes one provider out.
  | @climbs truthy c stack k q hth' hk hd hq =>
    subst hth'
    refine h.steps hth rfl hgrows (top hstack fun e _ hunder => hunder.call rfl fun c' hc' => ?_)
    cases hc'
    exact ⟨c, rfl, .single ⟨k, hk, hq⟩⟩
  | unregistered hth' =>
    subst hth'
    exact h.steps hth rfl hgrows (tail hstack)
  | locks hth' hlock =>
    subst hth'
    exact h.steps hth rfl hgrows (call hstack rfl rfl rfl)
  | begins hth' hk hd hcached =>
    subst hth'
    exact h.steps hth rfl hgrows (call hstack rfl rfl rfl)
  -- The dependency is asked for at the provider whose lock the call holds.
  | @wires c found dep deps injected stack hth' =>
    subst hth'
    have hwaits : (Frame.wiring c found deps injected :: stack).Pairwise (Under s.providers) :=
      call hstack rfl rfl rfl
    refine h.steps hth rfl hgrows
      (List.pairwise_cons.2 ⟨fun g hg q hq => ⟨rfl, fun c' hc' => ?_⟩, hwaits⟩)
    cases hc'
    rcases List.mem_cons.1 hg with rfl | hg
    · cases hq
      exact .refl
    · exact ((List.pairwise_cons.1 hstack).1 g hg q hq).2 c rfl
  | calls hth' =>
    subst hth'
    exact h.steps hth rfl hgrows (call hstack rfl rfl rfl)
  | injects hth' =>
    subst hth'
    exact h.steps hth rfl hgrows (call hstack rfl rfl rfl)
  | aborts hth' =>
    subst hth'
    exact h.steps hth rfl hgrows (tail hstack)
  | gives_up hth' =>
    subst hth'
    exact h.steps hth rfl hgrows (quiet hstack rfl rfl)
  | goes_on hreply htop => exact h.steps hth rfl hgrows hstack
  -- Below a scope that is being entered there is no lock.
  | @resolves p ty eager stack hth' =>
    subst hth'
    have henters : (Frame.entering p eager :: stack).Pairwise (Under s.providers) := by
      refine top hstack fun e _ hunder q hq => ?_
      cases (hunder q hq).1
    refine h.steps hth rfl hgrows (List.pairwise_cons.2 ⟨fun g hg q hq => ?_, henters⟩)
    rcases List.mem_cons.1 hg with rfl | hg
    · cases hq
    · cases ((List.pairwise_cons.1 hstack).1 g hg q hq).1
  | opens hth' =>
    subst hth'
    exact h.steps hth rfl hgrows (quiet hstack rfl rfl)
  | pops hth' hk hi ha =>
    subst hth'
    refine h.steps hth rfl hgrows ?_
    split
    · refine List.pairwise_cons.2 ⟨fun g _ => .quiet rfl rfl g, ?_⟩
      exact hstack.imp fun hunder => hunder.grows hgrows
    · exact hstack.imp fun hunder => hunder.grows hgrows
  | is_left hth' hk hexits =>
    subst hth'
    exact h.steps hth rfl hgrows ((tail hstack).imp fun hunder => hunder.grows hgrows)

end Ordered

/-! ## Threads that wait for each other -/

/-- Thread `t` waits for the lock of provider `p`. -/
def World.awaits (s : World) (t p : Nat) : Prop :=
  ∃ c stack, s.threads[t]? = some ⟨.locking c :: stack, none⟩ ∧ c.provider = p

/-- Thread `t` waits for a lock that thread `u` holds. -/
def World.waitsFor (s : World) (t u : Nat) : Prop :=
  ∃ p th, s.awaits t p ∧ t ≠ u ∧ s.threads[u]? = some th ∧ th.holds p = true

/-- What the locks rest on, in every state of a run. -/
structure Locks (s : World) : Prop where
  sound : Sound s
  injected : Injected s
  ordered : Ordered s

theorem Locks.start (n : Nat) : Locks (.start n) := ⟨.start n, .start n, .start n⟩

theorem Locks.step {s u : World} {a : Act} (h : Locks s) (hcond : s.outward a = true)
    (hstep : s.step a = some u) : Locks u := by
  obtain ⟨th, hth, hmoves⟩ := World.moves_of_step hstep
  exact ⟨h.sound.moves hth hmoves, h.injected.moves h.sound hth hmoves,
    h.ordered.moves hcond hth rfl hmoves⟩

/-- A thread that waits for one lock and keeps others waiting for another has the outer one to wait
for. -/
theorem Locks.awaits_lt {s : World} (h : Locks s) {t u v p q : Nat} (ht : s.awaits t p)
    (htu : s.waitsFor t u) (hu : s.awaits u q) (huv : s.waitsFor u v) : q < p := by
  obtain ⟨c, stack, hth, rfl⟩ := ht
  obtain ⟨d, rest, hthu, rfl⟩ := hu
  obtain ⟨p, th, ⟨c', stack', hth', rfl⟩, -, hthu', hholds⟩ := htu
  cases hth.symm.trans hth'
  cases hthu.symm.trans hthu'
  obtain ⟨f, hf, hholds⟩ := Sound.holds_iff.1 hholds
  -- It is a level below the call that waits that holds the lock.
  rcases List.mem_cons.1 hf with rfl | hf
  · cases hholds
  · have hunder := (List.pairwise_cons.1 (h.ordered u _ hthu)).1 f hf _ hholds
    have hle : d.provider ≤ c.provider := (hunder.2 d rfl).le h.injected.parents
    refine Nat.lt_of_le_of_ne hle fun heq => ?_
    obtain ⟨p, thv, ⟨d', rest', hthu', rfl⟩, hne, hthv, hholdsv⟩ := huv
    cases hthu.symm.trans hthu'
    -- Were it the same lock, two threads would hold it.
    refine hne (h.sound.exclusive u v _ thv d.provider hthu hthv ?_ hholdsv)
    exact Sound.holds_iff.2 ⟨f, List.mem_cons_of_mem _ hf, heq ▸ hholds⟩

theorem World.waitsFor.awaits {s : World} {t u : Nat} (h : s.waitsFor t u) : ∃ p, s.awaits t p := by
  obtain ⟨p, th, ht, -⟩ := h
  exact ⟨p, ht⟩

/-- Along the threads that wait for one another the locks lie further and further out. -/
theorem Locks.transGen_lt {s : World} (h : Locks s) {t u v p q : Nat}
    (hgen : Relation.TransGen s.waitsFor t u) (ht : s.awaits t p) (hu : s.awaits u q)
    (huv : s.waitsFor u v) : q < p := by
  induction hgen generalizing q v with
  | single htu => exact h.awaits_lt ht htu hu huv
  | tail _ hbc ih =>
    obtain ⟨r, hr⟩ := hbc.awaits
    exact Nat.lt_trans (h.awaits_lt hr hbc hu huv) (ih hr hbc)

theorem World.awaits.unique {s : World} {t p q : Nat} (hp : s.awaits t p) (hq : s.awaits t q) :
    p = q := by
  obtain ⟨c, stack, hth, rfl⟩ := hp
  obtain ⟨d, rest, hth', rfl⟩ := hq
  cases hth.symm.trans hth'
  rfl

theorem Locks.exec {s u : World} {as : List Act} (h : Locks s)
    (hmeets : system.Meets (fun s a => s.outward a = true) s as)
    (hrun : system.exec s as = some u) : Locks u := by
  have hall : system.Throughout Locks s as :=
    Lts.throughout_of_meets (I := fun _ => True) (fun _ _ _ _ _ => trivial)
      (fun _ _ _ _ h hcond hstep => h.step hcond hstep) trivial h hmeets
  exact Lts.throughout_iff_prefix.1 hall _ _ (List.prefix_refl _) hrun

/-- In no run whose factories resolve outwards do threads wait for one another in a circle. -/
theorem no_circle (n : Nat) (as : List Act) (s : World)
    (hmeets : system.Meets (fun s a => s.outward a = true) (World.start n) as)
    (hrun : system.exec (World.start n) as = some s) (t : Nat) :
    ¬ Relation.TransGen s.waitsFor t t := by
  intro hgen
  have h : Locks s := (Locks.start n).exec hmeets hrun
  obtain ⟨u, htu⟩ : ∃ u, s.waitsFor t u := by
    cases Relation.TransGen.head'_iff.1 hgen with
    | intro u hu => exact ⟨u, hu.1⟩
  obtain ⟨p, ht⟩ := htu.awaits
  exact Nat.lt_irrefl _ (h.transGen_lt hgen ht ht htu)

/-- A service of the application's scope, and one of an inner scope that depends on it. -/
def nestedServices : List ServiceDescriptor :=
  [⟨5, appContext, .plain [], false⟩, ⟨6, 9, .plain [5], false⟩]

/-- The scopes are open. The factory of the outer service runs on thread 1, thread 0 resolves the
inner one and waits for the lock of the outer provider; then the factory asks provider `p`. -/
def crossing (p : Nat) (ty : Ty) : List Act :=
  [.enter 0 none nestedServices appContext, .eager 0, .enter 0 (some 0) nestedServices 9, .eager 0,
    .ask 1 0 5, .lookup 1 true, .lock 1, .recheck 1 true, .wire 1,
    .ask 0 1 6, .lookup 0 true, .lock 0, .recheck 0 true, .wire 0, .lookup 0 true, .lookup 0 true,
    .ask 1 p ty, .lookup 1 true]

/-- The factory resolves its own service once more: thread 0 waits for thread 1, which waits for
none. -/
theorem no_circle_of_crossing :
    ∃ s, system.exec (World.start 2) (crossing 0 5) = some s ∧ s.waitsFor 0 1 ∧
      ¬ Relation.TransGen s.waitsFor 0 0 :=
  ⟨_, rfl, ⟨0, _, ⟨_, _, rfl, rfl⟩, Nat.zero_ne_one, rfl, rfl⟩,
    no_circle 2 (crossing 0 5) _ (by decide) rfl 0⟩

/-- The factory asks the inner provider: each thread waits for the other one. -/
theorem waits_for_each_other :
    ∃ s, system.exec (World.start 2) (crossing 1 6) = some s ∧ s.waitsFor 0 1 ∧ s.waitsFor 1 0 :=
  ⟨_, rfl, ⟨0, _, ⟨_, _, rfl, rfl⟩, Nat.zero_ne_one, rfl, rfl⟩,
    ⟨1, _, ⟨_, _, rfl, rfl⟩, Nat.one_ne_zero, rfl, rfl⟩⟩

end LocalPost.Di
