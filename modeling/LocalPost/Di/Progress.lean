import LocalPost.Di.Ledger
import LocalPost.Di.Locks

/-!
# No thread is stuck

A thread that is not idle can go on, by itself and without asking for anything new, unless it waits
for a lock that another thread holds. When factories resolve outwards, of the threads that wait for
one another the one that waits for the outermost lock is kept by a thread that does not wait.
-/

set_option autoImplicit false

namespace LocalPost.Di

open LocalPost.Core

/-! ## Where the levels of a thread stand -/

namespace Frame

/-- The provider of a scope or a call. -/
def place : Frame → Option Nat
  | .block p => some p
  | .entering p _ => some p
  | .leaving p => some p
  | .closing _ => none
  | .looking c => some c.provider
  | .locking c => some c.provider
  | .rechecking c => some c.provider
  | .wiring c _ _ _ => some c.provider
  | .running c _ _ => some c.provider

/-- The level has asked for something, or may have. -/
def hears : Frame → Bool
  | .block _ => true
  | .entering _ _ => true
  | .closing _ => true
  | .wiring _ _ _ _ => true
  | .running _ _ _ => true
  | _ => false

end Frame

/-- A call stands above a level that hears what it returns. -/
def Heard (g f : Frame) : Prop := g.call?.isSome = true → f.hears = true

/-- The levels of a thread stand at providers that are there, and a reply reaches a level that hears
it. -/
structure Thread.Placed (n : Nat) (th : Thread) : Prop where
  chain : th.stack.IsChain Heard
  places : ∀ f ∈ th.stack, ∀ p, f.place = some p → p < n
  reply : th.reply.isSome = true → ∀ f ∈ th.stack.head?, f.hears = true

namespace Thread.Placed

variable {n : Nat} {f g : Frame} {stack : List Frame} {reply : Option Reply}

theorem mono {m : Nat} {th : Thread} (h : th.Placed n) (hle : n ≤ m) : th.Placed m :=
  ⟨h.chain, fun f hf p hp => Nat.lt_of_lt_of_le (h.places f hf p hp) hle, h.reply⟩

theorem push (h : Thread.Placed n ⟨stack, reply⟩) (hheard : ∀ f ∈ stack.head?, Heard g f)
    (hplace : ∀ p, g.place = some p → p < n) : Thread.Placed n ⟨g :: stack, none⟩ := by
  refine ⟨List.isChain_cons.2 ⟨hheard, h.chain⟩, fun f hf => ?_, fun hr => (by cases hr)⟩
  rcases List.mem_cons.1 hf with rfl | hf
  · exact hplace
  · exact h.places f hf

theorem pop (h : Thread.Placed n ⟨f :: stack, reply⟩) : Thread.Placed n ⟨stack, none⟩ :=
  ⟨(List.isChain_cons.1 h.chain).2, fun g hg => h.places g (List.mem_cons_of_mem _ hg),
    fun hr => (by cases hr)⟩

/-- A call ends, and the level below hears it. -/
theorem answer (h : Thread.Placed n ⟨f :: stack, reply⟩) (hcall : f.call?.isSome = true)
    (reply' : Option Reply) : Thread.Placed n ⟨stack, reply'⟩ :=
  ⟨h.pop.chain, h.pop.places, fun _ g hg => (List.isChain_cons.1 h.chain).1 g hg hcall⟩

theorem top (h : Thread.Placed n ⟨f :: stack, reply⟩)
    (hcall : g.call?.isSome = true → f.call?.isSome = true)
    (hplace : ∀ p, g.place = some p → p < n) : Thread.Placed n ⟨g :: stack, none⟩ :=
  h.pop.push (fun e he hg => (List.isChain_cons.1 h.chain).1 e he (hcall hg)) hplace

/-- Another level of the same call or scope takes the place of the topmost one. -/
theorem same (h : Thread.Placed n ⟨f :: stack, reply⟩)
    (hcall : g.call?.isSome = true → f.call?.isSome = true) (hplace : g.place = f.place) :
    Thread.Placed n ⟨g :: stack, none⟩ :=
  h.top hcall fun p hp => h.places f List.mem_cons_self p (hplace ▸ hp)

theorem taken {th : Thread} (h : th.Placed n) : Thread.Placed n ⟨th.stack, none⟩ :=
  ⟨h.chain, h.places, fun hr => (by cases hr)⟩

/-- Code of the application hears what it asks for. -/
theorem hears_of_isFree {th : Thread} (hfree : th.isFree = true) :
    ∀ f ∈ th.stack.head?, f.hears = true := by
  obtain ⟨stack, reply⟩ := th
  cases stack with
  | nil => exact fun f hf => (by cases hf)
  | cons f stack =>
    intro g hg
    cases hg
    have htop := (Bool.and_eq_true_iff.1 hfree).2
    cases f with
    | block p => rfl
    | closing i => rfl
    | running c found injected => rfl
    | _ => exact absurd htop (by simp)

end Thread.Placed

/-- Every thread is placed. -/
def Placed (s : World) : Prop :=
  ∀ (t : Nat) (th : Thread), s.threads[t]? = some th → th.Placed s.providers.length

/-- No move takes a provider away. -/
theorem Moves.length_le {s u : World} {t : Nat} {th : Thread} {a : Act} (h : Moves s t th a u) :
    s.providers.length ≤ u.providers.length := by
  cases h with
  | enters hfree hparent =>
    change s.providers.length ≤ (s.providers ++ [_]).length
    rw [List.length_append]
    exact Nat.le_add_right _ _
  | produces hth hf hk hd => exact Nat.le_of_eq List.length_set.symm
  | pops hth hk hi ha => exact Nat.le_of_eq List.length_set.symm
  | is_left hth hk hexits => exact Nat.le_of_eq List.length_set.symm
  | _ => exact Nat.le_refl _

namespace Placed

variable {s u : World} {t : Nat} {th : Thread}

theorem start (n : Nat) : Placed (.start n) := by
  intro t th hth
  rw [(List.mem_replicate.1 (List.mem_of_getElem? hth)).2]
  exact ⟨.nil, fun f hf => absurd hf List.not_mem_nil, fun hr => (by cases hr)⟩

theorem steps (h : Placed s) (hth : s.threads[t]? = some th) {th' : Thread}
    (hthreads : u.threads = s.threads.set t th') (hle : s.providers.length ≤ u.providers.length)
    (hth' : th'.Placed u.providers.length) : Placed u := by
  intro v thv hv
  rw [hthreads, getElem?_set_iff hth] at hv
  split at hv
  · subst hv
    exact hth'
  · exact (h v thv hv).mono hle

/-- Every move keeps the levels at providers that are there. -/
theorem moves {a : Act} (hinjected : Injected s) (h : Placed s) (hth : s.threads[t]? = some th)
    (hmoves : Moves s t th a u) : Placed u := by
  have hplaced : Thread.Placed s.providers.length ⟨th.stack, th.reply⟩ := h t th hth
  have hle := hmoves.length_le
  cases hmoves with
  | asks hfree hp =>
    refine h.steps hth rfl hle (Thread.Placed.push hplaced (fun f hf _ => ?_) fun q hq => ?_)
    · exact Thread.Placed.hears_of_isFree hfree f hf
    · cases hq
      exact hp
  | enters hfree hparent =>
    refine h.steps hth rfl hle (Thread.Placed.push (hplaced.mono hle) (fun f hf hcall => ?_)
      fun q hq => ?_)
    · cases hcall
    · cases hq
      change s.providers.length < (s.providers ++ [_]).length
      rw [List.length_append]
      exact Nat.lt_succ_self _
  | leaves hth' =>
    subst hth'
    exact h.steps hth rfl hle (hplaced.same (fun hcall => hcall) rfl)
  | produces hth' hf hk hd =>
    subst hth'
    refine h.steps hth rfl hle ((hplaced.mono hle).answer ?_ _)
    rcases hf with ⟨found, rfl⟩ | ⟨found, rfl⟩
    · rfl
    · rfl
  | fails hth' =>
    subst hth'
    exact h.steps hth rfl hle (hplaced.answer rfl _)
  | cleaned hth' =>
    subst hth'
    exact h.steps hth rfl hle hplaced.pop
  | knows hth' hr hty =>
    subst hth'
    exact h.steps hth rfl hle (hplaced.answer rfl _)
  | finds hth' hf hk hi =>
    subst hth'
    refine h.steps hth rfl hle (hplaced.answer ?_ _)
    rcases hf with rfl | rfl
    · rfl
    · rfl
  | misses hth' hk hd =>
    subst hth'
    exact h.steps hth rfl hle (hplaced.same (fun _ => rfl) rfl)
  -- A parent was there before its child.
  | @climbs truthy c stack k q hth' hk hd hq =>
    subst hth'
    refine h.steps hth rfl hle (hplaced.top (fun _ => rfl) fun p hp => ?_)
    cases hp
    exact Nat.lt_trans (hinjected.parents _ k _ hk hq) (List.getElem?_eq_some_iff.1 hk).1
  | unregistered hth' =>
    subst hth'
    exact h.steps hth rfl hle (hplaced.answer rfl _)
  | locks hth' hlock =>
    subst hth'
    exact h.steps hth rfl hle (hplaced.same (fun _ => rfl) rfl)
  | begins hth' hk hd hcached =>
    subst hth'
    exact h.steps hth rfl hle (hplaced.same (fun _ => rfl) rfl)
  | @wires c found dep deps injected stack hth' =>
    subst hth'
    have hwaits : Thread.Placed s.providers.length ⟨.wiring c found deps injected :: stack, none⟩ :=
      hplaced.same (fun _ => rfl) rfl
    refine h.steps hth rfl hle (hwaits.push (fun f hf _ => ?_) fun p hp => ?_)
    · cases hf
      rfl
    · cases hp
      exact hplaced.places _ List.mem_cons_self _ rfl
  | calls hth' =>
    subst hth'
    exact h.steps hth rfl hle (hplaced.same (fun _ => rfl) rfl)
  | injects hth' =>
    subst hth'
    exact h.steps hth rfl hle (hplaced.same (fun _ => rfl) rfl)
  | aborts hth' =>
    subst hth'
    exact h.steps hth rfl hle (hplaced.answer rfl _)
  | gives_up hth' =>
    subst hth'
    exact h.steps hth rfl hle (hplaced.same (fun hcall => (by cases hcall)) rfl)
  | goes_on hreply htop => exact h.steps hth rfl hle hplaced.taken
  | @resolves p ty eager stack hth' =>
    subst hth'
    have henters : Thread.Placed s.providers.length ⟨.entering p eager :: stack, none⟩ :=
      hplaced.same (fun hcall => (by cases hcall)) rfl
    refine h.steps hth rfl hle (henters.push (fun f hf _ => ?_) fun q hq => ?_)
    · cases hf
      rfl
    · cases hq
      exact hplaced.places _ List.mem_cons_self _ rfl
  | opens hth' =>
    subst hth'
    exact h.steps hth rfl hle (hplaced.same (fun hcall => (by cases hcall)) rfl)
  | pops hth' hk hi ha =>
    subst hth'
    refine h.steps hth rfl hle ?_
    split
    · refine (hplaced.mono hle).push (fun f hf hcall => ?_) fun p hp => (by cases hp)
      cases hcall
    · exact hplaced.mono hle
  | is_left hth' hk hexits =>
    subst hth'
    exact h.steps hth rfl hle (hplaced.mono hle).pop

end Placed

/-! ## No thread is stuck -/

/-- The step asks for nothing new: it is one of the code's own, or one that ends code of the
application. -/
def Act.settles : Act → Bool
  | .ask _ _ _ => false
  | .enter _ _ _ _ => false
  | _ => true

/-- The providers, from any state that they reach, when nothing new is asked for. -/
def settling : Lts World Act where
  init := system.Reachable
  step := fun s a => if a.settles then s.step a else none

theorem settling_step_iff {s u : World} {a : Act} :
    settling.step s a = some u ↔ a.settles = true ∧ s.step a = some u := by
  cases ha : a.settles with
  | true => simp [settling, ha]
  | false => simp [settling, ha]

/-- Thread `t` can go on. -/
def World.goesOn (s : World) (t : Nat) : Prop :=
  ∃ a u, a.settles = true ∧ a.thread = t ∧ s.step a = some u

section

variable {s : World} {t : Nat} {stack : List Frame}

theorem World.goesOn.of_isSome {th : Thread} (hth : s.threads[t]? = some th) (a : Act)
    (ha : a.thread = t)
    (hsettles : a.settles = true) (hstep : (s.stepOn t th a).isSome = true) : s.goesOn t := by
  refine ⟨a, (s.stepOn t th a).get hstep, hsettles, ha, ?_⟩
  rw [World.step, ha, hth]
  exact (Option.some_get hstep).symm

/-- A reply is delivered. -/
theorem World.goesOn.of_reply (hplaced : Placed s) {reply : Reply}
    (hth : s.threads[t]? = some ⟨stack, some reply⟩) : s.goesOn t := by
  apply World.goesOn.of_isSome hth (.deliver t) rfl rfl
  change (s.deliver t reply stack).isSome = true
  have hhears := (hplaced t _ hth).reply rfl
  cases stack with
  | nil => cases reply <;> rfl
  | cons f stack =>
    have hf := hhears f rfl
    cases f with
    | block p => cases reply <;> rfl
    | entering p eager => cases reply <;> rfl
    | closing i => cases reply <;> rfl
    | wiring c found deps injected => cases reply <;> rfl
    | running c found injected => cases reply <;> rfl
    | _ => cases hf

/-- The owner of a service has a descriptor of it. -/
theorem Owner.descriptor {ps : List Provider} {ty : Ty} {asked p : Nat} (h : Owner ps ty asked p) :
    ∃ k d, ps[p]? = some k ∧ k.descriptor ty = some d := h.2

/-- A thread with all dependencies at hand goes on, as its provider has the service. -/
theorem World.goesOn.of_call {c : Call} {found : Option Nat} {injected : List Resolved}
    (hth : s.threads[t]? = some ⟨.wiring c found [] injected :: stack, none⟩)
    (howner : Owner s.providers c.ty c.asked c.provider) : s.goesOn t := by
  obtain ⟨k, d, hk, hd⟩ := howner.descriptor
  apply World.goesOn.of_isSome hth (.wire t) rfl rfl
  change (s.call t c found injected stack).isSome = true
  rw [World.call, hk, Option.bind_some, hd, Option.bind_some]
  cases d.factory with
  | value =>
    change (s.produce t c injected stack).isSome = true
    rw [World.produce, hk, Option.bind_some, hd]
    rfl
  | _ => rfl

theorem World.goesOn.of_looking (hplaced : Placed s) {c : Call}
    (hth : s.threads[t]? = some ⟨.looking c :: stack, none⟩) : s.goesOn t := by
  have hlt := (hplaced t _ hth).places _ List.mem_cons_self _ rfl
  apply World.goesOn.of_isSome hth (.lookup t true) rfl rfl
  change (s.lookup t true c stack).isSome = true
  rw [World.lookup, List.getElem?_eq_getElem hlt]
  rfl

/-- A thread that looks again under the lock goes on. -/
theorem World.goesOn.of_rechecking {c : Call}
    (hth : s.threads[t]? = some ⟨.rechecking c :: stack, none⟩)
    (howner : Owner s.providers c.ty c.asked c.provider) : s.goesOn t := by
  obtain ⟨k, d, hk, hd⟩ := howner.descriptor
  apply World.goesOn.of_isSome hth (.recheck t true) rfl rfl
  change (s.recheck t true c stack).isSome = true
  rw [World.recheck, hk, Option.bind_some]
  cases World.cached k c.ty true with
  | some i => rfl
  | none =>
    rw [hd]
    rfl

/-- A thread that leaves a scope goes on. -/
theorem World.goesOn.of_leaving (hledger : Ledger s) (hplaced : Placed s) {p : Nat}
    (hth : s.threads[t]? = some ⟨.leaving p :: stack, none⟩) : s.goesOn t := by
  have hlt := (hplaced t _ hth).places _ List.mem_cons_self _ rfl
  have hk := List.getElem?_eq_getElem hlt
  apply World.goesOn.of_isSome hth (.pop t) rfl rfl
  change (s.pop t p stack).isSome = true
  rw [World.pop, hk, Option.bind_some]
  cases hlast : s.providers[p].exits.getLast? with
  | none => rfl
  | some i =>
    obtain ⟨a, ha, -⟩ := hledger.exits p _ hk i (List.mem_of_getLast? hlast)
    change Option.isSome ((s.instances[i]?).map _) = true
    rw [ha]
    rfl

/-- A lock that no other thread holds is free. -/
theorem World.goesOn.of_locking {c : Call} (hth : s.threads[t]? = some ⟨.locking c :: stack, none⟩)
    (hfree : ∀ u, ¬ s.waitsFor t u) : s.goesOn t := by
  apply World.goesOn.of_isSome hth (.lock t) rfl rfl
  change (s.lock t c stack).isSome = true
  rw [World.lock, if_pos]
  · rfl
  · refine List.all_eq_true.2 fun u _ => ?_
    by_cases hut : u = t
    · rw [decide_eq_true hut]
      rfl
    · rw [decide_eq_false hut, Bool.false_or]
      cases hu : s.threads[u]? with
      | none => rfl
      | some th =>
        rw [Option.all_some, Bool.not_eq_true', Bool.eq_false_iff]
        exact fun hholds => hfree u ⟨_, th, ⟨c, stack, hth, rfl⟩, Ne.symm hut, hu, hholds⟩

/-- A thread is idle, or can go on, or waits for the lock of another one. -/
theorem idle_or_goesOn (hsound : Sound s) (hledger : Ledger s) (hplaced : Placed s) {th : Thread}
    (hth : s.threads[t]? = some th) : th = ⟨[], none⟩ ∨ s.goesOn t ∨ ∃ u, s.waitsFor t u := by
  obtain ⟨stack, reply⟩ := th
  cases reply with
  -- A thread with a reply is handed it; any other goes on by its topmost frame.
  | some reply => exact .inr (.inl (.of_reply hplaced hth))
  | none =>
    cases stack with
    | nil => exact .inl rfl
    | cons f stack =>
      have hfits := hsound.frames t _ hth f List.mem_cons_self
      refine .inr ?_
      cases f with
      | block p => exact .inl (.of_isSome hth (.leave t) rfl rfl rfl)
      | entering p eager =>
        cases eager with
        | nil => exact .inl (.of_isSome hth (.eager t) rfl rfl rfl)
        | cons ty eager => exact .inl (.of_isSome hth (.eager t) rfl rfl rfl)
      | leaving p => exact .inl (.of_leaving hledger hplaced hth)
      | closing i => exact .inl (.of_isSome hth (.cleaned t) rfl rfl rfl)
      | looking c => exact .inl (.of_looking hplaced hth)
      -- only a frame that asks for the lock can wait for another thread
      | locking c =>
        by_cases hfree : ∃ u, s.waitsFor t u
        · exact .inr hfree
        · exact .inl (.of_locking hth fun u hu => hfree ⟨u, hu⟩)
      | rechecking c => exact .inl (.of_rechecking hth hfits)
      | wiring c found deps injected =>
        cases deps with
        | nil => exact .inl (.of_call hth hfits)
        | cons dep deps => exact .inl (.of_isSome hth (.wire t) rfl rfl rfl)
      | running c found injected => exact .inl (.of_isSome hth (.fail t) rfl rfl rfl)

/-- Of threads that wait for one another the last one goes on. -/
theorem Locks.exists_goesOn (h : Locks s) (hledger : Ledger s) (hplaced : Placed s) {u p : Nat}
    (ht : s.awaits t p) (htu : s.waitsFor t u) : ∃ v, s.goesOn v := by
  induction p using Nat.strongRecOn generalizing t u with
  | ind p ih =>
    obtain ⟨p', th, ht', hne, hth, hholds⟩ := id htu
    rcases idle_or_goesOn h.sound hledger hplaced hth with rfl | hgoes | ⟨v, huv⟩
    · cases hholds
    · exact ⟨u, hgoes⟩
    · obtain ⟨q, hu⟩ := huv.awaits
      exact ih q (h.awaits_lt ht htu hu huv) hu huv

/-- While a thread is not idle, some thread can go on. -/
theorem Locks.goesOn_of_not_idle (h : Locks s) (hledger : Ledger s) (hplaced : Placed s)
    {th : Thread} (hth : s.threads[t]? = some th) (hbusy : th ≠ ⟨[], none⟩) : ∃ v, s.goesOn v := by
  rcases idle_or_goesOn h.sound hledger hplaced hth with hidle | hgoes | ⟨u, htu⟩
  · exact absurd hidle hbusy
  · exact ⟨t, hgoes⟩
  · obtain ⟨p, ht⟩ := htu.awaits
    exact h.exists_goesOn hledger hplaced ht htu

end

end LocalPost.Di
