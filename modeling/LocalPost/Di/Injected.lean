import Mathlib.Data.List.Chain
import LocalPost.Di.Sound

/-!
# What is injected into an instance

A factory's dependencies are resolved through the provider that runs it, and a search goes from a
provider to its parent, which is older. So what reaches a factory comes from its own provider or
from an older one, and was made before the instance that it is injected into.
-/

set_option autoImplicit false

namespace LocalPost.Di

open LocalPost.Core

namespace Frame

/-- The call that the level is part of. -/
def call? : Frame → Option Call
  | .looking c => some c
  | .locking c => some c
  | .rechecking c => some c
  | .wiring c _ _ _ => some c
  | .running c _ _ => some c
  | _ => none

/-- The call that waits for a dependency. -/
def wires : Frame → Option Call
  | .wiring c _ _ _ => some c
  | _ => none

/-- What a call has resolved for its factory. -/
def injects : Frame → Option (Call × List Resolved)
  | .wiring c _ _ injected => some (c, injected)
  | .running c _ injected => some (c, injected)
  | _ => none

end Frame

/-- Above a call that waits for a dependency stands the call for it, at the same provider or at an
older one. -/
def Calls (g f : Frame) : Prop := ∀ c, f.wires = some c → ∃ c',
    g.call? = some c' ∧ c'.provider ≤ c.provider

/-- If it is an instance, provider `p` or an older one made it. -/
def Below (made : List Instance) (p : Nat) (r : Resolved) : Prop :=
  ∀ j, r = .instance j → ∃ b, made[j]? = some b ∧ b.provider ≤ p

theorem Below.le {made : List Instance} {p q : Nat} {r : Resolved} (h : Below made p r)
    (hpq : p ≤ q) : Below made q r := by
  intro j hj
  obtain ⟨b, hb, hle⟩ := h j hj
  exact ⟨b, hb, Nat.le_trans hle hpq⟩

theorem Below.grows {made made' : List Instance} {p : Nat} {r : Resolved} (h : Below made p r)
    (hmade : ∀ (i : Nat) (a : Instance), made[i]? = some a → made'[i]? = some a) :
    Below made' p r := by
  intro j hj
  obtain ⟨b, hb, hle⟩ := h j hj
  exact ⟨b, hmade j b hb, hle⟩

/-- What a thread's levels have resolved comes from their own providers or older ones. -/
structure Thread.Wired (made : List Instance) (th : Thread) : Prop where
  chain : th.stack.IsChain Calls
  injected : ∀ f ∈ th.stack, ∀ (c : Call) (rs : List Resolved), f.injects = some (c, rs) →
    ∀ r ∈ rs, Below made c.provider r
  reply : ∀ f ∈ th.stack.head?, ∀ c, f.wires = some c → ∀ r, th.reply = some (.value r) →
    Below made c.provider r

namespace Thread.Wired

variable {made : List Instance} {f g : Frame} {stack : List Frame} {reply : Option Reply}

theorem idle : Thread.Wired made ⟨[], none⟩ :=
  ⟨.nil, fun f hf => absurd hf List.not_mem_nil, fun f hf => (by cases hf)⟩

theorem grows {th : Thread} (h : th.Wired made) {made' : List Instance}
    (hmade : ∀ (i : Nat) (a : Instance), made[i]? = some a → made'[i]? = some a) : th.Wired made' :=
  ⟨h.chain, fun f hf c rs hfr r hr => (h.injected f hf c rs hfr r hr).grows hmade,
    fun f hf c hfc r hr => (h.reply f hf c hfc r hr).grows hmade⟩

/-- The reply is taken. -/
theorem taken (h : Thread.Wired made ⟨stack, reply⟩) : Thread.Wired made ⟨stack, none⟩ :=
  ⟨h.chain, h.injected, fun f _ c _ r hr => (by cases hr)⟩

/-- A new level. -/
theorem push (h : Thread.Wired made ⟨stack, reply⟩) (hcalls : ∀ f ∈ stack.head?, Calls g f)
    (hinjects : ∀ (c : Call) (rs : List Resolved), g.injects = some (c, rs) → ∀ r ∈ rs,
      Below made c.provider r) :
    Thread.Wired made ⟨g :: stack, none⟩ := by
  refine ⟨List.isChain_cons.2 ⟨hcalls, h.chain⟩, fun f hf => ?_, fun f _ c _ r hr => (by cases hr)⟩
  rcases List.mem_cons.1 hf with rfl | hf
  · exact hinjects
  · exact h.injected f hf

/-- The topmost level ends, with a reply that comes from its provider or an older one. -/
theorem pop (h : Thread.Wired made ⟨f :: stack, reply⟩) {reply' : Option Reply}
    (hreply : ∀ c, f.call? = some c → ∀ r, reply' = some (.value r) → Below made c.provider r) :
    Thread.Wired made ⟨stack, reply'⟩ := by
  obtain ⟨hcalls, hchain⟩ := List.isChain_cons.1 h.chain
  refine ⟨hchain, fun g hg => h.injected g (List.mem_cons_of_mem _ hg), fun g hg c hgc r hr => ?_⟩
  obtain ⟨c', hfc, hle⟩ := hcalls g hg c hgc
  exact (hreply c' hfc r hr).le hle

/-- The topmost level ends without a value. -/
theorem ends (h : Thread.Wired made ⟨f :: stack, reply⟩) {reply' : Option Reply}
    (hnone : ∀ r, reply' ≠ some (.value r)) : Thread.Wired made ⟨stack, reply'⟩ :=
  h.pop fun _ _ r hr => absurd hr (hnone r)

/-- Another level of the same call takes the place of the topmost one. -/
theorem top (h : Thread.Wired made ⟨f :: stack, reply⟩)
    (hcall : ∀ c, f.call? = some c → ∃ c', g.call? = some c' ∧ c'.provider ≤ c.provider)
    (hinjects : ∀ (c : Call) (rs : List Resolved), g.injects = some (c, rs) → ∀ r ∈ rs,
      Below made c.provider r) :
    Thread.Wired made ⟨g :: stack, none⟩ := by
  obtain ⟨hcalls, -⟩ := List.isChain_cons.1 h.chain
  have hrest : Thread.Wired made ⟨stack, none⟩ := h.ends fun r => (by simp)
  refine hrest.push (fun e he c hec => ?_) hinjects
  obtain ⟨c', hfc, hle⟩ := hcalls e he c hec
  obtain ⟨c'', hgc, hle'⟩ := hcall c' hfc
  exact ⟨c'', hgc, Nat.le_trans hle' hle⟩

/-- Below code of the application no call waits for a dependency. -/
theorem not_wires_of_isFree {th : Thread} (hfree : th.isFree = true) :
    ∀ f ∈ th.stack.head?, f.wires = none := by
  obtain ⟨stack, reply⟩ := th
  cases stack with
  | nil => exact fun f hf => (by cases hf)
  | cons f stack =>
    intro g hg
    cases hg
    cases f with
    | wiring c found deps injected => exact absurd (Bool.and_eq_true_iff.1 hfree).2 (by simp)
    | _ => rfl

theorem pushFree {th : Thread} (h : th.Wired made) (hfree : th.isFree = true)
    (hnone : g.injects = none) : Thread.Wired made ⟨g :: th.stack, none⟩ := by
  have hth : Thread.Wired made ⟨th.stack, th.reply⟩ := h
  refine hth.push (fun f hf c hfc => ?_) fun c rs hgr => ?_
  · rw [not_wires_of_isFree hfree f hf] at hfc
    cases hfc
  · rw [hnone] at hgr
    cases hgr

end Thread.Wired

/-- What every run keeps of parents, of what calls have resolved and of what was injected. -/
structure Injected (s : World) : Prop where
  parents : ∀ (p : Nat) (k : Provider) (q : Nat), s.providers[p]? = some k →
    k.parent = some q → q < p
  threads : ∀ (t : Nat) (th : Thread), s.threads[t]? = some th → th.Wired s.instances
  injected : ∀ (i : Nat) (a : Instance) (j : Nat), s.instances[i]? = some a →
    .instance j ∈ a.injected → j < i ∧ ∃ b, s.instances[j]? = some b ∧ b.provider ≤ a.provider

namespace Injected

variable {s u : World} {t : Nat} {th : Thread}

theorem start (n : Nat) : Injected (.start n) := by
  refine ⟨fun p k q h => (by cases h), fun t th hth => ?_, fun i a j h => (by cases h)⟩
  rw [(List.mem_replicate.1 (List.mem_of_getElem? hth)).2]
  exact .idle

/-- Thread `t` goes on, and no instance is made. -/
theorem steps (h : Injected s) (hth : s.threads[t]? = some th) {th' : Thread}
    (hthreads : u.threads = s.threads.set t th') (hinstances : u.instances = s.instances)
    (hparents : ∀ (p : Nat) (k : Provider) (q : Nat), u.providers[p]? = some k →
      k.parent = some q → q < p)
    (hth' : th'.Wired s.instances) : Injected u := by
  refine ⟨hparents, fun v thv hv => ?_, ?_⟩
  · rw [hinstances]
    rw [hthreads, getElem?_set_iff hth] at hv
    split at hv
    · subst hv
      exact hth'
    · exact h.threads v thv hv
  · rw [hinstances]
    exact h.injected

/-- A provider that is replaced by one with the same parent leaves the order of the parents. -/
theorem parents_set (h : Injected s) {p : Nat} {k k' : Provider} (hk : s.providers[p]? = some k)
    (hparent : k'.parent = k.parent) (q : Nat) (kq : Provider) (r : Nat)
    (hq : (s.providers.set p k')[q]? = some kq) (hr : kq.parent = some r) : r < q := by
  rw [getElem?_set_iff hk] at hq
  split at hq
  · rename_i heq
    subst heq
    subst hq
    exact h.parents p k r hk (hparent ▸ hr)
  · exact h.parents q kq r hq hr

/-- An instance is made of what its call has resolved. -/
theorem stores (h : Injected s) {f : Frame} {c : Call} {injected : List Resolved}
    {stack : List Frame}
    {k : Provider} {d : ServiceDescriptor} (hth : s.threads[t]? = some ⟨f :: stack, none⟩)
    (hf : f.injects = some (c, injected)) (hcall : f.call? = some c)
    (hk : s.providers[c.provider]? = some k) :
    Injected ((s.store c k d injected).reply t c (.instance s.instances.length) stack) := by
  -- the new instance is at the end, so the numbers of the others stay
  have hmade : ∀ (i : Nat) (a : Instance), s.instances[i]? = some a →
      (s.store c k d injected).instances[i]? = some a := fun i a ha =>
        getElem?_concat_iff.2 (.inl ha)
  have hwired := h.threads t _ hth
  refine ⟨h.parents_set hk rfl, fun v thv hv => ?_, fun i a j ha hj => ?_⟩
  -- the storing thread pops its frame, and its reply is the new instance
  · have hv' : (s.threads.set t _)[v]? = some thv := hv
    rw [getElem?_set_iff hth] at hv'
    split at hv'
    · subst hv'
      refine (hwired.grows hmade).pop fun c' hc' r hr => ?_
      cases hcall.symm.trans hc'
      cases hr
      rintro j hj
      cases hj
      exact ⟨_, getElem?_concat_iff.2 (.inr ⟨rfl, rfl⟩), Nat.le_refl _⟩
    · exact (h.threads v thv hv').grows hmade
  -- the providers of the old instances are still theirs; those of the new one are its arguments'
  · rcases getElem?_concat_iff.1 ha with ha | ⟨rfl, rfl⟩
    · obtain ⟨hlt, b, hb, hle⟩ := h.injected i a j ha hj
      exact ⟨hlt, b, hmade j b hb, hle⟩
    · obtain ⟨b, hb, hle⟩ := hwired.injected f List.mem_cons_self c injected hf _ hj j rfl
      exact ⟨(List.getElem?_eq_some_iff.1 hb).1, b, hmade j b hb, hle⟩

/-- Every move keeps what is injected. -/
theorem moves {a : Act} (hs : Sound s) (h : Injected s) (hth : s.threads[t]? = some th)
    (hmoves : Moves s t th a u) : Injected u := by
  have hwired := h.threads t th hth
  cases hmoves with
  | asks hfree hp => exact h.steps hth rfl rfl h.parents (hwired.pushFree hfree rfl)
  | @enters parent descriptors scopeType hfree hparent =>
    refine h.steps hth rfl rfl (fun p k q hp hq => ?_) (hwired.pushFree hfree rfl)
    rcases getElem?_concat_iff.1 hp with hp | ⟨rfl, rfl⟩
    · exact h.parents p k q hp hq
    · exact hparent q hq
  | leaves hth' =>
    subst hth'
    exact h.steps hth rfl rfl h.parents (hwired.top (fun c hc => (by cases hc)) fun c rs hrs =>
      (by cases hrs))
  | produces hth' hf hk hd =>
    subst hth'
    rcases hf with ⟨found, rfl⟩ | ⟨found, rfl⟩
    · exact h.stores hth rfl rfl hk
    · exact h.stores hth rfl rfl hk
  | fails hth' =>
    subst hth'
    exact h.steps hth rfl rfl h.parents (hwired.ends fun r => (by simp))
  | cleaned hth' =>
    subst hth'
    exact h.steps hth rfl rfl h.parents (hwired.ends fun r => (by simp))
  | knows hth' hr hty =>
    subst hth'
    refine h.steps hth rfl rfl h.parents (hwired.pop fun c' _ r' hr' j hj => ?_)
    cases hr'
    exact absurd hj (hr j)
  -- What this cache holds was made at this provider.
  | @finds a f c stack k i hth' hf hk hi =>
    subst hth'
    refine h.steps hth rfl rfl h.parents (hwired.pop fun c' hc' r hr j hj => ?_)
    have hc : c' = c := by
      rcases hf with rfl | rfl
      · exact (Option.some.inj hc').symm
      · exact (Option.some.inj hc').symm
    subst hc
    cases hr
    cases hj
    obtain ⟨⟨b, hb, hprovider, -⟩, -⟩ := hs.cached _ k _ i hk hi
    exact ⟨b, hb, Nat.le_of_eq hprovider⟩
  | misses hth' hk hd =>
    subst hth'
    refine h.steps hth rfl rfl h.parents
      (hwired.top (fun c hc => ?_) fun c rs hrs => (by cases hrs))
    exact ⟨_, rfl, Nat.le_of_eq (congrArg Call.provider (Option.some.inj hc))⟩
  -- A parent was made before its child, so its index is the smaller one.
  | climbs hth' hk hd hq =>
    subst hth'
    refine h.steps hth rfl rfl h.parents
      (hwired.top (fun c hc => ?_) fun c rs hrs => (by cases hrs))
    cases hc
    exact ⟨_, rfl, Nat.le_of_lt (h.parents _ _ _ hk hq)⟩
  | unregistered hth' =>
    subst hth'
    exact h.steps hth rfl rfl h.parents (hwired.ends fun r => (by simp))
  | locks hth' hlock =>
    subst hth'
    refine h.steps hth rfl rfl h.parents
      (hwired.top (fun c hc => ?_) fun c rs hrs => (by cases hrs))
    exact ⟨_, rfl, Nat.le_of_eq (congrArg Call.provider (Option.some.inj hc))⟩
  | begins hth' hk hd hcached =>
    subst hth'
    refine h.steps hth rfl rfl h.parents (hwired.top (fun c hc => ?_) fun c rs hrs r hr => ?_)
    · exact ⟨_, rfl, Nat.le_of_eq (congrArg Call.provider (Option.some.inj hc))⟩
    · cases hrs
      exact absurd hr List.not_mem_nil
  -- The dependency starts at the provider that makes its dependent, so it ends there or further
  -- out.
  | @wires c found dep deps injected stack hth' =>
    subst hth'
    have hwaits : Thread.Wired s.instances ⟨.wiring c found deps injected :: stack, none⟩ :=
      hwired.top (fun c hc => ⟨_, rfl, Nat.le_of_eq (congrArg Call.provider (Option.some.inj hc))⟩)
        fun c rs hrs => hwired.injected _ List.mem_cons_self c rs hrs
    refine h.steps hth rfl rfl h.parents
      (hwaits.push (fun f hf c hfc => ?_) fun c rs hrs => (by cases hrs))
    cases hf
    cases hfc
    exact ⟨_, rfl, Nat.le_refl _⟩
  | calls hth' =>
    subst hth'
    refine h.steps hth rfl rfl h.parents (hwired.top (fun c hc => ?_) fun c rs hrs => ?_)
    · exact ⟨_, rfl, Nat.le_of_eq (congrArg Call.provider (Option.some.inj hc))⟩
    · exact hwired.injected _ List.mem_cons_self c rs hrs
  -- What came back joins the arguments; those before it were covered already.
  | injects hth' =>
    subst hth'
    refine h.steps hth rfl rfl h.parents (hwired.top (fun c hc => ?_) fun c rs hrs r hr => ?_)
    · exact ⟨_, rfl, Nat.le_of_eq (congrArg Call.provider (Option.some.inj hc))⟩
    · cases hrs
      rcases List.mem_append.1 hr with hr | hr
      · exact hwired.injected _ List.mem_cons_self _ _ rfl r hr
      · rw [List.mem_singleton.1 hr]
        exact hwired.reply _ rfl _ rfl _ rfl
  | aborts hth' =>
    subst hth'
    exact h.steps hth rfl rfl h.parents (hwired.ends fun r => (by simp))
  | gives_up hth' =>
    subst hth'
    exact h.steps hth rfl rfl h.parents (hwired.top (fun c hc => (by cases hc)) fun c rs hrs =>
      (by cases hrs))
  | goes_on hreply htop =>
    have htaken : Thread.Wired s.instances ⟨th.stack, th.reply⟩ := hwired
    exact h.steps hth rfl rfl h.parents htaken.taken
  | @resolves p ty eager stack hth' =>
    subst hth'
    have henters : Thread.Wired s.instances ⟨.entering p eager :: stack, none⟩ :=
      hwired.top (fun c hc => (by cases hc)) fun c rs hrs => (by cases hrs)
    refine h.steps hth rfl rfl h.parents
      (henters.push (fun f hf c hfc => ?_) fun c rs hrs => (by cases hrs))
    cases hf
    cases hfc
  | opens hth' =>
    subst hth'
    exact h.steps hth rfl rfl h.parents (hwired.top (fun c hc => (by cases hc)) fun c rs hrs =>
      (by cases hrs))
  | @pops p stack k i a hth' hk hi ha =>
    subst hth'
    refine h.steps hth rfl rfl (h.parents_set hk rfl) ?_
    split
    · refine hwired.push (fun f hf c hfc => ?_) fun c rs hrs => (by cases hrs)
      cases hf
      cases hfc
    · exact hwired
  | is_left hth' hk hexits =>
    subst hth'
    exact h.steps hth rfl rfl (h.parents_set hk rfl) (hwired.ends fun r => (by simp))

end Injected

end LocalPost.Di
