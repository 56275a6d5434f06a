import LocalPost.Di.Creation
import LocalPost.Di.Injected

/-!
# The teardown of a scope

One thread, which leaves its scopes in the order opposite to the one it has entered them in. When a
scope has been left, each instance that it made before has been closed once. An instance is closed
before what was injected into it, because that is on the same stack of callbacks, below it, or on
the stack of an older provider, whose scope is left later. A cleanup that resolves a service gets
what has been closed by then: such a dependency does not come after (`closed_before`). A factory
that raises changes no provider.
-/

set_option autoImplicit false

namespace LocalPost.Di

open LocalPost.Core

/-! ## The scopes of a thread -/

/-- The provider whose scope the level is. -/
def Frame.scope : Frame → Option Nat
  | .block p => some p
  | .entering p _ => some p
  | .leaving p => some p
  | _ => none

/-- What a step does to the scopes of its thread. -/
inductive Scoped (s : World) (t : Nat) (th : Thread) : World → Prop where
  | same {u : World} {th' : Thread} (hthreads : u.threads = s.threads.set t th')
      (hscopes : th'.stack.filterMap Frame.scope = th.stack.filterMap Frame.scope)
      (hleaving : ∀ p, .leaving p ∈ th.stack → .leaving p ∈ th'.stack)
      (hproviders : u.providers = s.providers)
      (hinstances : u.instances = s.instances) (hclosed : u.closed = s.closed) : Scoped s t th u
  | enters {parent : Option Nat} {descriptors : List ServiceDescriptor} {scopeType : Ty} :
      Scoped s t th (s.enter t (World.provide parent descriptors scopeType) th.stack)
  | stores {f : Frame} {c : Call} {injected : List Resolved} {stack : List Frame} {k : Provider}
      {d : ServiceDescriptor} (hth : th = ⟨f :: stack, none⟩) (hf : f.scope = none)
      (hk : s.providers[c.provider]? = some k) :
      Scoped s t th ((s.store c k d injected).reply t c (.instance s.instances.length) stack)
  | pops {p : Nat} {stack above : List Frame} {k : Provider} {i : Nat}
      (hth : th = ⟨.leaving p :: stack, none⟩)
      (habove : above.filterMap Frame.scope = []) (hk : s.providers[p]? = some k)
      (hi : k.exits.getLast? = some i) :
      Scoped s t th ((s.close p k i).goes t (above ++ .leaving p :: stack))
  | is_left {p : Nat} {stack : List Frame} {k : Provider} (hth : th = ⟨.leaving p :: stack, none⟩)
      (hk : s.providers[p]? = some k) (hexits : k.exits = []) :
      Scoped s t th
        (({ s with providers := s.providers.set p { k with left := true } }).goes t stack)

section

variable {s u : World} {t : Nat} {th : Thread}

/-- A level that is no scope ends, or others stand in its place. -/
theorem Scoped.call (above : List Frame) {f : Frame} {stack : List Frame} {th' : Thread}
    (hth : th.stack = f :: stack) (hf : f.scope = none) (hth' : th'.stack = above ++ stack)
    (habove : above.filterMap Frame.scope = []) (hthreads : u.threads = s.threads.set t th')
    (hproviders : u.providers = s.providers)
    (hinstances : u.instances = s.instances) (hclosed : u.closed = s.closed) : Scoped s t th u := by
  refine .same hthreads ?_ (fun p hp => ?_) hproviders hinstances hclosed
  · rw [hth', hth, List.filterMap_append, habove, List.filterMap_cons_none hf]
    rfl
  · rw [hth] at hp
    rw [hth']
    rcases List.mem_cons.1 hp with rfl | hp
    · cases hf
    · exact List.mem_append_right _ hp

theorem Scoped.pops_above (above : List Frame) {p : Nat} {stack : List Frame} {k : Provider}
    {i : Nat} (habove : above.filterMap Frame.scope = []) (hk : s.providers[p]? = some k)
    (hi : k.exits.getLast? = some i) :
    Scoped s t ⟨.leaving p :: stack, none⟩
      ((s.close p k i).goes t (above ++ .leaving p :: stack)) :=
  .pops rfl habove hk hi

/-- What a move does to the scopes. -/
theorem Moves.scoped {a : Act} (h : Moves s t th a u) : Scoped s t th u := by
  cases h with
  | asks hfree hp => exact .same rfl rfl (fun p hp => List.mem_cons_of_mem _ hp) rfl rfl rfl
  | enters hfree hparent => exact .enters
  | leaves hth =>
    subst hth
    refine .same rfl rfl (fun p hp => ?_) rfl rfl rfl
    rcases List.mem_cons.1 hp with heq | hp
    · cases heq
    · exact List.mem_cons_of_mem _ hp
  | produces hth hf hk hd =>
    rcases hf with ⟨found, rfl⟩ | ⟨found, rfl⟩
    · exact .stores hth rfl hk
    · exact .stores hth rfl hk
  | fails hth =>
    subst hth
    exact .call [] rfl rfl rfl rfl rfl rfl rfl rfl
  | cleaned hth =>
    subst hth
    exact .call [] rfl rfl rfl rfl rfl rfl rfl rfl
  | knows hth hr hty =>
    subst hth
    exact .call [] rfl rfl rfl rfl rfl rfl rfl rfl
  | finds hth hf hk hi =>
    subst hth
    rcases hf with rfl | rfl
    · exact .call [] rfl rfl rfl rfl rfl rfl rfl rfl
    · exact .call [] rfl rfl rfl rfl rfl rfl rfl rfl
  | unregistered hth =>
    subst hth
    exact .call [] rfl rfl rfl rfl rfl rfl rfl rfl
  | aborts hth =>
    subst hth
    exact .call [] rfl rfl rfl rfl rfl rfl rfl rfl
  | gives_up hth =>
    subst hth
    refine .same rfl rfl (fun p hp => ?_) rfl rfl rfl
    rcases List.mem_cons.1 hp with heq | hp
    · cases heq
    · exact List.mem_cons_of_mem _ hp
  | goes_on hreply htop => exact .same rfl rfl (fun p hp => hp) rfl rfl rfl
  | resolves hth =>
    subst hth
    refine .same rfl rfl (fun p hp => ?_) rfl rfl rfl
    rcases List.mem_cons.1 hp with heq | hp
    · cases heq
    · exact List.mem_cons_of_mem _ (List.mem_cons_of_mem _ hp)
  | opens hth =>
    subst hth
    refine .same rfl rfl (fun p hp => ?_) rfl rfl rfl
    rcases List.mem_cons.1 hp with heq | hp
    · cases heq
    · exact List.mem_cons_of_mem _ hp
  | @wires c found dep deps injected stack hth =>
    subst hth
    exact .call [_, _] rfl rfl rfl rfl rfl rfl rfl rfl
  | @pops p stack k i a hth hk hi ha =>
    subst hth
    split
    · exact Scoped.pops_above [.closing i] rfl hk hi
    · exact Scoped.pops_above [] rfl hk hi
  | is_left hth hk hexits => exact .is_left hth hk hexits
  | _ hth =>
    -- one level of a call takes the place of another
    subst hth
    exact .call [_] rfl rfl rfl rfl rfl rfl rfl rfl

end

/-! ## What every run of one thread keeps -/

/-- Where instance `i` is closed, it comes before `j`, unless `j` had been closed when `i` was
made. -/
def InOrder (s : World) (i : Nat) (a : Instance) (j : Nat) : Prop :=
  j ∈ s.closed.take a.closedBefore ∨ ∀ pre post, s.closed = pre ++ j :: post → i ∈ pre

/-- What every run of one thread keeps: its scopes are those that have not been left, the innermost
on top; a scope that has been left has callbacks only of instances that were made later; instances
are closed in order. -/
structure Scopes (s : World) (stack : List Frame) : Prop where
  nested : (stack.filterMap Frame.scope).Pairwise (· > ·)
  there : ∀ p ∈ stack.filterMap Frame.scope, p < s.providers.length
  inside : ∀ (p : Nat) (k : Provider), s.providers[p]? = some k → k.left = false →
    p ∈ stack.filterMap Frame.scope
  late : ∀ (p : Nat) (k : Provider), s.providers[p]? = some k → k.left = true →
    ∀ i ∈ k.exits, ∃ a, s.instances[i]? = some a ∧ a.late = true
  before : ∀ (i : Nat) (a : Instance), s.instances[i]? = some a → a.closedBefore ≤ s.closed.length
  order : ∀ (i : Nat) (a : Instance) (j : Nat), s.instances[i]? = some a → a.late = false →
    .instance j ∈ a.injected → InOrder s i a j
  ended : ∀ (i : Nat) (a : Instance) (k : Provider), i ∈ s.closed → s.instances[i]? = some a →
    s.providers[a.provider]? = some k → k.left = true ∨ .leaving a.provider ∈ stack

namespace Scopes

variable {s u : World} {t : Nat} {th : Thread}

theorem start (n : Nat) : Scopes (.start n) [] :=
  ⟨.nil, fun p hp =>
    absurd hp List.not_mem_nil, fun p k h => (by cases h), fun p k h => (by cases h),
    fun i a h => (by cases h), fun i a j h => (by cases h), fun i a k h =>
      absurd h List.not_mem_nil⟩

/-- The scopes stay the same ones. -/
theorem same {stack stack' : List Frame} (h : Scopes s stack)
    (hscopes : stack'.filterMap Frame.scope = stack.filterMap Frame.scope)
    (hleaving : ∀ p, .leaving p ∈ stack → .leaving p ∈ stack')
    (hproviders : u.providers = s.providers)
    (hinstances : u.instances = s.instances) (hclosed : u.closed = s.closed) : Scopes u stack' := by
  refine ⟨?_, ?_, ?_, ?_, ?_, ?_, ?_⟩
  · rw [hscopes]
    exact h.nested
  · rw [hscopes, hproviders]
    exact h.there
  · rw [hscopes, hproviders]
    exact h.inside
  · rw [hproviders, hinstances]
    exact h.late
  · rw [hinstances, hclosed]
    exact h.before
  · simp only [InOrder, hinstances, hclosed]
    exact h.order
  · rw [hclosed, hinstances, hproviders]
    exact fun i a k hi ha hk => (h.ended i a k hi ha hk).imp_right (hleaving _)

/-- A new scope is the innermost one. -/
theorem enters (hledger : Ledger s) {stack : List Frame} (h : Scopes s stack) {k : Provider}
    (hleft : k.left = false) (heager : List Ty) :
    Scopes { s with providers := s.providers ++ [k] }
      (.entering s.providers.length heager :: stack) := by
  have hscopes : (Frame.entering s.providers.length heager :: stack).filterMap Frame.scope =
      s.providers.length :: stack.filterMap Frame.scope := List.filterMap_cons_some rfl
  refine ⟨?_, ?_, fun p k' hp hk' => ?_, fun p k' hp hk' => ?_, h.before, h.order,
    fun i a k' hi ha hk' => ?_⟩
  -- the new provider is the innermost of the thread, and its number above all others
  · rw [hscopes]
    exact List.pairwise_cons.2 ⟨h.there, h.nested⟩
  · rw [hscopes]
    intro p hp
    change p < (s.providers ++ [k]).length
    rw [List.length_append]
    rcases List.mem_cons.1 hp with rfl | hp
    · exact Nat.lt_succ_self _
    · exact Nat.lt_succ_of_lt (h.there p hp)
  · rw [hscopes]
    rcases getElem?_concat_iff.1 hp with hp | ⟨rfl, -⟩
    · exact List.mem_cons_of_mem _ (h.inside p k' hp hk')
    · exact List.mem_cons_self
  · rcases getElem?_concat_iff.1 hp with hp | ⟨-, rfl⟩
    · exact h.late p k' hp hk'
    · rw [hleft] at hk'
      cases hk'
  -- the providers of the old instances are the old ones
  · obtain ⟨k₀, hk₀⟩ := hledger.made i a ha
    have hsame : k' = k₀ := by
      rcases getElem?_concat_iff.1 hk' with hk' | ⟨heq, -⟩
      · exact Option.some.inj (hk'.symm.trans hk₀)
      · rw [heq, List.getElem?_eq_none (Nat.le_refl _)] at hk₀
        cases hk₀
    subst hsame
    exact (h.ended i a k' hi ha hk₀).imp_right (List.mem_cons_of_mem _)

/-- An instance is made. What had not been closed before will be closed after it. -/
theorem stores (hledger : Ledger s) {f : Frame} {stack : List Frame} (h : Scopes s (f :: stack))
    (hf : f.scope = none) {c : Call} {injected : List Resolved} {k : Provider}
    {d : ServiceDescriptor}
    (hk : s.providers[c.provider]? = some k) : Scopes (s.store c k d injected) stack := by
  have hscopes : (f :: stack).filterMap Frame.scope = stack.filterMap Frame.scope :=
    List.filterMap_cons_none hf
  -- Storing leaves every provider open or left as it was.
  have hold : ∀ {p : Nat} {k' : Provider}, (s.store c k d injected).providers[p]? = some k' →
      ∃ k₀, s.providers[p]? = some k₀ ∧ k₀.left = k'.left := by
    intro p k' hp
    rw [World.store, getElem?_set_iff hk] at hp
    split at hp
    · rename_i heq
      subst heq
      subst hp
      exact ⟨k, hk, rfl⟩
    · exact ⟨k', hp, rfl⟩
  refine ⟨?_, ?_, fun p k' hp hk' => ?_, fun p k' hp hk' i hi => ?_, fun i a ha => ?_,
    fun i a j ha hlate hj => ?_,
    fun i a k' hi ha hk' => ?_⟩
  · rw [← hscopes]
    exact h.nested
  · rw [← hscopes]
    intro p hp
    change p < (s.providers.set c.provider _).length
    rw [List.length_set]
    exact h.there p hp
  · obtain ⟨k₀, hk₀, hleft⟩ := hold hp
    rw [← hscopes]
    exact h.inside p k₀ hk₀ (hleft.trans hk')
  · rw [World.store, getElem?_set_iff hk] at hp
    split at hp
    · rename_i heq
      subst heq
      subst hp
      rcases List.mem_append.1 hi with hi | hi
      · obtain ⟨a, ha, hlate⟩ := h.late _ k hk hk' i hi
        exact ⟨a, getElem?_concat_iff.2 (.inl ha), hlate⟩
      · rw [List.mem_singleton.1 hi]
        exact ⟨_, getElem?_concat_iff.2 (.inr ⟨rfl, rfl⟩), hk'⟩
    · obtain ⟨a, ha, hlate⟩ := h.late p k' hp hk' i hi
      exact ⟨a, getElem?_concat_iff.2 (.inl ha), hlate⟩
  · rcases getElem?_concat_iff.1 ha with ha | ⟨-, rfl⟩
    · exact h.before i a ha
    · exact Nat.le_refl _
  · rcases getElem?_concat_iff.1 ha with ha | ⟨-, rfl⟩
    · exact h.order i a j ha hlate hj
    -- What is closed already was closed before the new instance was made.
    · by_cases hclosed : j ∈ s.closed
      · exact .inl ((List.take_length (l := s.closed)).symm ▸ hclosed)
      · refine .inr fun pre post heq => absurd ?_ hclosed
        have heq' : s.closed = pre ++ j :: post := heq
        rw [heq']
        exact List.mem_append_right _ List.mem_cons_self
  · obtain ⟨k₀, hk₀, hleft⟩ := hold hk'
    have ha' : s.instances[i]? = some a := by
      rcases getElem?_concat_iff.1 ha with ha | ⟨rfl, -⟩
      · exact ha
      · exact absurd (hledger.closed _ hi) (Nat.lt_irrefl _)
    rw [← hleft]
    refine (h.ended i a k₀ hi ha' hk₀).imp_right fun hmem => ?_
    rcases List.mem_cons.1 hmem with rfl | hmem
    · cases hf
    · exact hmem

/-- The innermost scope closes an instance that nothing open, except what was made too late, has had
injected. -/
theorem outlived (hledger : Ledger s) (hinjected : Injected s) {p i j : Nat} {stack : List Frame}
    (h : Scopes s (.leaving p :: stack)) {k : Provider} {a : Instance}
    (hk : s.providers[p]? = some k)
    (hlast : k.exits.getLast? = some j) (ha : s.instances[i]? = some a) (hlate : a.late = false)
    (hj : .instance j ∈ a.injected) : i ∈ s.closed := by
  refine Classical.byContradiction fun hopen => ?_
  obtain ⟨exits, hexits⟩ : ∃ exits, k.exits = exits ++ [j] :=
    ⟨_, (List.dropLast_append_getLast? j hlast).symm⟩
  have hmem : j ∈ k.exits := hexits ▸ List.mem_append_right _ List.mem_cons_self
  obtain ⟨b, hb, hprovider⟩ := hledger.exits p k hk j hmem
  obtain ⟨hlt, b', hb', hle⟩ := hinjected.injected i a j ha hj
  cases hb.symm.trans hb'
  -- the instance is on the stack of its provider, whose scope is open
  obtain ⟨q, hq⟩ := hledger.made i a ha
  have hon : i ∈ q.exits := by
    have hcount := hledger.count i a q ha hq
    rw [List.count_eq_zero.2 hopen, Nat.add_zero] at hcount
    exact List.count_pos_iff.1 (by omega)
  have hleft : q.left = false := by
    cases hleft : q.left with
    | false => rfl
    | true =>
      obtain ⟨a', ha', hlate'⟩ := h.late _ q hq hleft i hon
      cases ha.symm.trans ha'
      rw [hlate] at hlate'
      cases hlate'
  have hscopes : (Frame.leaving p :: stack).filterMap Frame.scope =
    p :: stack.filterMap Frame.scope :=
    List.filterMap_cons_some rfl
  have hnested := h.nested
  have hinside := h.inside _ q hq hleft
  rw [hscopes] at hnested hinside
  -- so it is the innermost one, and the instance lies above what is closed
  have hsame : a.provider = p := by
    rcases List.mem_cons.1 hinside with heq | hout
    · exact heq
    · have hgt := (List.pairwise_cons.1 hnested).1 _ hout
      rw [hprovider] at hle
      exact absurd (Nat.lt_of_lt_of_le hgt hle) (Nat.lt_irrefl _)
  rw [hsame] at hq
  cases hk.symm.trans hq
  have hsorted := hledger.sorted p k hk
  rw [hexits] at hsorted hon
  rcases List.mem_append.1 hon with hon | hon
  · exact Nat.lt_asymm hlt ((List.pairwise_append.1 hsorted).2.2 i hon j List.mem_cons_self)
  · rw [List.mem_singleton.1 hon] at hlt
    exact Nat.lt_irrefl _ hlt

/-- An instance is closed. -/
theorem pops (hledger : Ledger s) (hinjected : Injected s) {p j : Nat} {above stack : List Frame}
    (h : Scopes s (.leaving p :: stack)) (habove : above.filterMap Frame.scope = []) {k : Provider}
    (hk : s.providers[p]? = some k) (hlast : k.exits.getLast? = some j) :
    Scopes (s.close p k j) (above ++ .leaving p :: stack) := by
  have hscopes : (above ++ .leaving p :: stack).filterMap Frame.scope =
      (Frame.leaving p :: stack).filterMap Frame.scope := by
    rw [List.filterMap_append, habove]
    rfl
  -- A stack only shrinks, and no provider is left by this.
  have hold : ∀ {q : Nat} {k' : Provider}, (s.close p k j).providers[q]? = some k' →
      ∃ k₀, s.providers[q]? = some k₀ ∧ k₀.left = k'.left ∧ ∀ i ∈ k'.exits, i ∈ k₀.exits := by
    intro q k' hq
    rw [World.close, getElem?_set_iff hk] at hq
    split at hq
    · rename_i heq
      subst heq
      subst hq
      exact ⟨k, hk, rfl, fun i hi => List.dropLast_subset _ hi⟩
    · exact ⟨k', hq, rfl, fun i hi => hi⟩
  refine ⟨?_, ?_, fun q k' hq hk' => ?_, fun q k' hq hk' i hi => ?_, fun i a ha => ?_,
    fun i a j' ha hlate hj' => ?_,
    fun i a k' hi ha hk' => ?_⟩
  · rw [hscopes]
    exact h.nested
  · rw [hscopes]
    intro q hq
    change q < (s.providers.set p _).length
    rw [List.length_set]
    exact h.there q hq
  · obtain ⟨k₀, hk₀, hleft, -⟩ := hold hq
    rw [hscopes]
    exact h.inside q k₀ hk₀ (hleft.trans hk')
  · obtain ⟨k₀, hk₀, hleft, hsub⟩ := hold hq
    exact h.late q k₀ hk₀ (hleft.trans hk') i (hsub i hi)
  · change a.closedBefore ≤ (s.closed ++ [j]).length
    rw [List.length_append]
    exact Nat.le_add_right_of_le (h.before i a ha)
  · rcases h.order i a j' ha hlate hj' with hbefore | horder
    · refine .inl ?_
      change j' ∈ (s.closed ++ [j]).take a.closedBefore
      rw [List.take_append_of_le_length (h.before i a ha)]
      exact hbefore
    · refine .inr fun pre post heq => ?_
      have heq' : s.closed ++ [j] = pre ++ j' :: post := heq
      rcases List.eq_nil_or_concat post with rfl | ⟨post, last, rfl⟩
      · -- it is the one that is closed now
        obtain ⟨hpre, hlast'⟩ := List.append_inj' heq' rfl
        cases hlast'
        rw [← hpre]
        exact h.outlived hledger hinjected hk hlast ha hlate hj'
      · rw [List.concat_eq_append, ← List.cons_append, ← List.append_assoc] at heq'
        exact horder pre post (List.append_inj' heq' rfl).1
  · obtain ⟨k₀, hk₀, hleft, -⟩ := hold hk'
    rw [← hleft]
    rcases List.mem_append.1 hi with hi | hi
    · exact (h.ended i a k₀ hi ha hk₀).imp_right (List.mem_append_right _)
    -- The closed instance is of the provider that is being left.
    · rw [List.mem_singleton.1 hi] at ha
      obtain ⟨b, hb, hprovider⟩ := hledger.exits p k hk j (List.mem_of_getLast? hlast)
      cases hb.symm.trans ha
      rw [hprovider]
      exact .inr (List.mem_append_right _ List.mem_cons_self)

/-- The innermost scope has been left. -/
theorem is_left {p : Nat} {stack : List Frame} (h : Scopes s (.leaving p :: stack)) {k : Provider}
    (hk : s.providers[p]? = some k) (hexits : k.exits = []) :
    Scopes { s with providers := s.providers.set p { k with left := true } } stack := by
  have hscopes : (Frame.leaving p :: stack).filterMap Frame.scope =
    p :: stack.filterMap Frame.scope :=
    List.filterMap_cons_some rfl
  -- `left` is set on one provider only, whose exits have all been run
  have hold : ∀ {q : Nat} {k' : Provider}, (s.providers.set p { k with left := true })[q]? =
    some k' →
      q = p ∧ k'.left = true ∧ k'.exits = [] ∨ q ≠ p ∧ s.providers[q]? = some k' := by
    intro q k' hq
    rw [getElem?_set_iff hk] at hq
    split at hq
    · rename_i heq
      subst hq
      exact .inl ⟨heq.symm, rfl, hexits⟩
    · rename_i hne
      exact .inr ⟨Ne.symm hne, hq⟩
  have hnested := h.nested
  rw [hscopes] at hnested
  refine ⟨(List.pairwise_cons.1 hnested).2, fun q hq => ?_, fun q k' hq hk' => ?_,
    fun q k' hq hk' => ?_, h.before,
    h.order, fun i a k' hi ha hk' => ?_⟩
  · change q < (s.providers.set p _).length
    rw [List.length_set]
    exact h.there q (hscopes ▸ List.mem_cons_of_mem _ hq)
  -- it leaves the stack and is not inside any more
  · rcases hold hq with ⟨-, hleft, -⟩ | ⟨hne, hq⟩
    · rw [hleft] at hk'
      cases hk'
    · have hmem := h.inside q k' hq hk'
      rw [hscopes] at hmem
      exact (List.mem_cons.1 hmem).resolve_left hne
  · rcases hold hq with ⟨-, -, hnil⟩ | ⟨-, hq⟩
    · rw [hnil]
      exact fun i hi => absurd hi List.not_mem_nil
    · exact h.late q k' hq hk'
  · rcases hold hk' with ⟨-, hleft, -⟩ | ⟨hne, hk'⟩
    · exact .inl hleft
    · refine (h.ended i a k' hi ha hk').imp_right fun hmem => ?_
      rcases List.mem_cons.1 hmem with heq | hmem
      · cases heq
        exact absurd rfl hne
      · exact hmem

/-- The scopes of a single thread are those on its stack, the innermost on top. -/
theorem moves {a : Act} (hledger : Ledger s) (hinjected : Injected s) (h : Scopes s th.stack)
    (hthreads : s.threads = [th]) (hmoves : Moves s 0 th a u) :
    ∃ th', u.threads = [th'] ∧ Scopes u th'.stack := by
  have hset : ∀ th', s.threads.set 0 th' = [th'] := fun th' => by rw [hthreads]; rfl
  cases hmoves.scoped with
  | @same u th' hthreads' hscopes hleaving hproviders hinstances hclosed =>
    exact ⟨th', hthreads'.trans (hset th'), h.same hscopes hleaving hproviders hinstances hclosed⟩
  | @enters parent descriptors scopeType =>
    have hleft : (World.provide parent descriptors scopeType).left = false := rfl
    exact ⟨_, hset _, (h.enters hledger hleft _).same rfl (fun p hp => hp) rfl rfl rfl⟩
  | @stores f c injected stack k d hth hf hk =>
    subst hth
    have hstores : Scopes (s.store c k d injected) stack := h.stores hledger hf hk
    exact ⟨_, hset _, hstores.same rfl (fun p hp => hp) rfl rfl rfl⟩
  | pops hth habove hk hi =>
    subst hth
    exact ⟨_, hset _, (h.pops hledger hinjected habove hk hi).same rfl (fun p hp => hp) rfl rfl rfl⟩
  | is_left hth hk hexits =>
    subst hth
    exact ⟨_, hset _, (h.is_left hk hexits).same rfl (fun p hp => hp) rfl rfl rfl⟩

end Scopes

/-! ## What a teardown promises -/

/-- What a scope that is left, or is being left, promises: what it made before is closed once when
it has been left, and before what was injected into it and had not been closed by then; and nothing
is closed earlier than that. -/
structure Teardown (s : World) : Prop where
  once : ∀ (i : Nat) (a : Instance) (k : Provider), s.instances[i]? = some a →
    s.providers[a.provider]? = some k →
    k.left = true → a.late = false → s.closed.count i = 1
  order : ∀ (i : Nat) (a : Instance) (j : Nat), s.instances[i]? = some a → a.late = false →
    .instance j ∈ a.injected → j ∉ s.closed.take a.closedBefore → ∀ pre post,
      s.closed = pre ++ j :: post → i ∈ pre
  ended : ∀ (i : Nat) (a : Instance) (k : Provider), i ∈ s.closed → s.instances[i]? = some a →
    s.providers[a.provider]? = some k → k.left = true ∨ ∃ th ∈ s.threads,
      .leaving a.provider ∈ th.stack

/-- The creation that a step ends with an exception: the factory raises, or a dependency has. -/
def World.undoes (s : World) : Act → Option (Call × Option Nat)
  | .fail t =>
    match s.threads[t]? with
    | some ⟨.running c found _ :: _, none⟩ => some (c, found)
    | _ => none
  | .deliver t =>
    match s.threads[t]? with
    | some ⟨.wiring c found _ _ :: _, some .raised⟩ => some (c, found)
    | _ => none
  | _ => none

/-- A creation that ends with an exception: it changes no provider and makes no instance. Its
provider has stored for the service what it had before, and if that is nothing, it has no exit
callback for it. -/
def Undone (s : World) : Prop :=
  ∀ (a : Act) (c : Call) (found : Option Nat) (u : World), s.undoes a = some (c, found) →
    s.step a = some u →
    u.providers = s.providers ∧ u.instances = s.instances ∧ u.closed = s.closed ∧
      ∃ k, u.providers[c.provider]? = some k ∧ Dict.get? c.ty k.services = found ∧
        (found = none → ∀ i ∈ k.exits, ∀ b, u.instances[i]? = some b → b.ty ≠ c.ty)

/-- A service that is registered and has no stored value is created by the call that comes to its
provider. -/
def Retried (s : World) : Prop :=
  ∀ (t : Nat) (truthy : Bool) (c : Call) (stack : List Frame) (k : Provider) (d :
    ServiceDescriptor),
    s.providers[c.provider]? = some k → k.descriptor c.ty = some d → c.ty ≠ serviceProvider →
    c.ty ≠ k.scope_type → Dict.get? c.ty k.services = none →
      (s.threads[t]? = some ⟨.looking c :: stack, none⟩ →
        s.step (.lookup t truthy) = some (s.goes t (.locking c :: stack))) ∧
      (s.threads[t]? = some ⟨.rechecking c :: stack, none⟩ →
        s.step (.recheck t truthy) = some (s.goes t (.wiring c none d.factory.deps [] :: stack)))

section

variable {s u : World} {th : Thread}

/-- Scopes that are left in this order keep the promise of a scope that is left. -/
theorem Teardown.of_scopes (hledger : Ledger s) (h : Scopes s th.stack)
    (hthreads : s.threads = [th]) : Teardown s := by
  refine ⟨fun i a k ha hk hleft hlate => ?_, fun i a j ha hlate hj hopen => ?_,
    fun i a k hi ha hk => ?_⟩
  · have hnot : i ∉ k.exits := by
      intro hi
      obtain ⟨a', ha', hlate'⟩ := h.late _ k hk hleft i hi
      cases ha.symm.trans ha'
      rw [hlate] at hlate'
      cases hlate'
    have hcount := hledger.count i a k ha hk
    rw [List.count_eq_zero.2 hnot, Nat.zero_add] at hcount
    exact hcount
  · exact (h.order i a j ha hlate hj).resolve_left hopen
  · refine (h.ended i a k hi ha hk).imp_right fun hmem => ⟨th, ?_, hmem⟩
    rw [hthreads]
    exact List.mem_cons_self

/-- A step that ends a creation with an exception ends it at the top of its thread. -/
theorem World.undoes_some {a : Act} {c : Call} {found : Option Nat}
    (h : s.undoes a = some (c, found)) :
    ∃ f stack reply, s.threads[a.thread]? = some ⟨f :: stack, reply⟩ ∧ f.creates = some (c, found) ∧
      ∀ u, s.step a = some u → u = s.raise a.thread stack := by
  rw [World.undoes.eq_def] at h
  split at h
  · split at h
    · rename_i t c' found' injected stack hth
      cases h
      refine ⟨_, stack, _, hth, rfl, fun u hu => ?_⟩
      rw [World.step, Act.thread, hth] at hu
      exact (Option.some.inj hu).symm
    · cases h
  · split at h
    · rename_i t c' found' deps injected stack hth
      cases h
      refine ⟨_, stack, _, hth, rfl, fun u hu => ?_⟩
      rw [World.step, Act.thread, hth] at hu
      exact (Option.some.inj hu).symm
    · cases h
  · cases h

/-- A creation that ends with an exception leaves nothing behind. -/
theorem Undone.of_held (hs : Sound s) (hledger : Ledger s) (hkept : Kept s)
    (hheld : Held s) : Undone s := by
  intro a c found u hundoes hstep
  obtain ⟨f, stack, reply, hth, hcreates, hraise⟩ := World.undoes_some hundoes
  rw [hraise u hstep]
  obtain ⟨-, k, d, hk, -⟩ := (hs.frames _ _ hth f List.mem_cons_self).owner hcreates
  have hfound : Dict.get? c.ty k.services = found :=
    hheld.found _ _ c found k hth (List.mem_filterMap.2 ⟨f, List.mem_cons_self, hcreates⟩) hk
  refine ⟨rfl, rfl, rfl, k, hk, hfound, fun hnone i hi b hb hty => ?_⟩
  obtain ⟨b', hb', hprovider⟩ := hledger.exits _ k hk i hi
  cases hb.symm.trans hb'
  refine hkept i b k hb (hprovider ▸ hk) ?_
  rw [hty, hfound, hnone]

/-- A service without a stored value is created by the next call. -/
theorem retried (s : World) : Retried s := by
  intro t truthy c stack k d hk hd hty hscope hnone
  have hcached : World.cached k c.ty truthy = none := by rw [World.cached, hnone]; rfl
  refine ⟨fun hth => ?_, fun hth => ?_⟩
  · rw [World.step, Act.thread, hth]
    change s.lookup t truthy c stack = _
    rw [World.lookup, hk, Option.map_some, if_neg hty, if_neg hscope, hcached, hd]
  · rw [World.step, Act.thread, hth]
    change s.recheck t truthy c stack = _
    rw [World.recheck, hk, Option.bind_some, hcached, hd, hnone]
    rfl

/-- What every run of one thread keeps. -/
structure Alone (s : World) : Prop where
  sound : Sound s
  ledger : Ledger s
  injected : Injected s
  scopes : ∃ th, s.threads = [th] ∧ Scopes s th.stack

/-- Every step of a thread that is alone keeps what its runs keep. -/
theorem Alone.step {a : Act} (h : Alone s) (hstep : s.step a = some u) : Alone u := by
  obtain ⟨hs, hledger, hinjected, th, hthreads, hscopes⟩ := h
  obtain ⟨th', hth', hmoves⟩ := World.moves_of_step hstep
  obtain ⟨hzero, rfl⟩ : a.thread = 0 ∧ th' = th := by
    rw [hthreads] at hth'
    have hzero : a.thread = 0 := Nat.lt_one_iff.1 (List.getElem?_eq_some_iff.1 hth').1
    rw [hzero] at hth'
    exact ⟨hzero, (Option.some.inj hth').symm⟩
  refine ⟨hs.moves hth' hmoves, hledger.moves hmoves, hinjected.moves hs hth' hmoves, ?_⟩
  rw [hzero] at hmoves
  exact hscopes.moves hledger hinjected hthreads hmoves

end

/-- In every state of every run of one thread the scopes keep their promises; and where no factory
is begun on a thread that is in it, a creation that ends with an exception leaves nothing behind and
is tried again.
-/
theorem teardown (as : List Act) :
    system.Throughout Teardown (World.start 1) as ∧
      (system.Meets (fun s a => s.outside a = true) (World.start 1) as →
        system.Throughout (fun s => Undone s ∧ Retried s) (World.start 1) as) := by
  constructor
  · refine Lts.throughout_iff_prefix.2 fun pre s _ hrun => ?_
    have hstart : Alone (World.start 1) := ⟨.start 1, .start 1, .start 1, _, rfl, .start 1⟩
    have halone : Alone s := Lts.exec_invariant (fun _ _ _ h hstep => h.step hstep) hstart hrun
    obtain ⟨th, hthreads, hscopes⟩ := halone.scopes
    exact .of_scopes halone.ledger hscopes hthreads
  · intro hmeets
    have hall : system.Throughout (fun s => Sound s ∧ Ledger s ∧ Kept s ∧ Held s)
        (World.start 1) as := by
      refine Lts.throughout_of_meets (I := fun _ => True) (fun _ _ _ _ _ => trivial)
        (fun s a u _ h hcond hstep => ?_) trivial ⟨.start 1, .start 1, .start 1, .start 1⟩ hmeets
      obtain ⟨hs, hledger, hkept, hheld⟩ := h
      obtain ⟨th, hth, hmoves⟩ := World.moves_of_step hstep
      exact ⟨hs.moves hth hmoves, hledger.moves hmoves, hkept.moves hledger hmoves,
        hheld.moves hs hcond hth hmoves⟩
    exact Lts.Throughout.mono (fun s ⟨hs, hledger, hkept, hheld⟩ =>
      ⟨.of_held hs hledger hkept hheld, retried s⟩) hall

/-- The application's scope has a generator that keeps the provider, a plain service, and one that
depends on that. -/
def closingServices : List ServiceDescriptor :=
  [⟨2, appContext, .generator [serviceProvider], false⟩, ⟨3, appContext, .plain [], false⟩,
    ⟨4, appContext, .autoWired [3], false⟩]

/-- The call for a service without dependencies, up to its value. -/
def resolves (ty : Ty) : List Act :=
  [.ask 0 0 ty, .lookup 0 true, .lock 0, .recheck 0 true, .wire 0, .produce 0, .deliver 0]

/-- The scope is opened, and the generator's service is resolved. -/
def opened : List Act :=
  [.enter 0 none closingServices appContext, .eager 0,
    .ask 0 0 2, .lookup 0 true, .lock 0, .recheck 0 true, .wire 0,
      .lookup 0 true, .deliver 0, .wire 0,
    .produce 0, .deliver 0]

/-- The factory of the last service raises once its dependency is there, and is tried again. -/
def triedAgain : List Act :=
  opened ++ [.ask 0 0 4, .lookup 0 true, .lock 0, .recheck 0 true, .wire 0,
    .lookup 0 true, .lock 0, .recheck 0 true, .wire 0, .produce 0, .deliver 0,
      .wire 0, .fail 0, .deliver 0,
    .ask 0 0 4, .lookup 0 true, .lock 0, .recheck 0 true, .wire 0,
      .lookup 0 true, .deliver 0, .wire 0,
    .produce 0, .deliver 0, .leave 0, .pop 0, .pop 0, .pop 0, .cleaned 0, .pop 0]

/-- The three instances are closed, the last one first. -/
theorem teardown_of_triedAgain :
    (system.Throughout Teardown (World.start 1) triedAgain ∧
      system.Throughout (fun s => Undone s ∧ Retried s) (World.start 1) triedAgain) ∧
      (system.exec (World.start 1) triedAgain).map World.closed = some [2, 1, 0] :=
  ⟨⟨(teardown triedAgain).1, (teardown triedAgain).2 (by decide)⟩, by decide⟩

/-- The cleanup of the generator resolves the service whose dependency has been closed. -/
def resolvesInCleanup : List Act :=
  opened ++ resolves 3 ++ [.leave 0, .pop 0, .pop 0,
    .ask 0 0 4, .lookup 0 true, .lock 0, .recheck 0 true, .wire 0,
      .lookup 0 true, .deliver 0, .wire 0,
    .produce 0, .deliver 0, .cleaned 0, .pop 0, .pop 0]

/-- The dependency is closed first. -/
theorem closed_before : ¬ ∀ as, system.Meets (fun s a => s.outside a = true) (World.start 1) as →
    system.Throughout (fun s => ∀ (i : Nat) (a : Instance) (j : Nat), s.instances[i]? = some a →
      .instance j ∈ a.injected → ∀ pre post, s.closed = pre ++ j :: post → i ∈ pre)
        (World.start 1) as := by
  intro h
  have hrun := Lts.throughout_iff_prefix.1 (h resolvesInCleanup (by decide)) _ _
    (List.prefix_refl _)
    (Option.some_get
      (show (system.exec (World.start 1) resolvesInCleanup).isSome = true by decide)).symm
  have hmem := hrun 2 ⟨0, 4, .autoWired [3], [.instance 1], 2, false⟩ 1 (by decide) (by decide)
    [] [0, 2] (by decide)
  exact absurd hmem List.not_mem_nil

end LocalPost.Di
