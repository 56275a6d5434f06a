import LocalPost.Hosting.ComposedStart
import Mathlib.Algebra.BigOperators.Group.Finset.Piecewise
import Mathlib.Algebra.Order.BigOperators.Group.Finset
import Mathlib.Logic.Function.Basic
import Mathlib.Logic.Relation

/-!
# A tree of services

A service starts children in its task group at any time, and a composition (`_run_many`,
`Scheduler`) starts all of its own at once, hands a shutdown on to them and ends when they have
stopped. `_run` leaves the task group when its function has ended, which cancels the children and
waits for them.

No service stops before everything below it (`stopped_below`). And when the root is told to end, by
a shutdown or a cancellation, then after a bounded number of steps of the services themselves every
service in the tree has stopped, whatever is started, told to end or failing meanwhile
(`shutdown_covers`).
-/

set_option autoImplicit false

namespace LocalPost.Hosting.Tree

open LocalPost.Core

/-- Where the `_run` of a service stands: before the children of a composition are started, in its
function, in the exit of its task group, at its end. -/
inductive Stage where
  | spawning
  | running
  | leaving
  | ended
  deriving DecidableEq, Repr

/-- A service, whether it is a composition and has handed on the shutdown. -/
structure Service (ε : Type) where
  parent : Option Nat
  composed : Bool
  propagated : Bool
  stage : Stage
  lt : ServiceLifetime ε

/-- The services below `count` exist. The root is the first one. -/
structure State (ε : Type) where
  count : Nat
  service : Nat → Service ε

/-- What can happen: a service starts a child; a composition starts its children; somebody calls a
method of a lifetime; the function of a service returns or raises; a composition hands on the
shutdown; the task group of a service ends, and with it its `_run`. -/
inductive Act (ε : Type) where
  | start (p : Nat) (composed : Bool)
  | spawn (i : Nat) (kinds : List Bool)
  | call (i : Nat) (c : Call ε)
  | bodyEnds (i : Nat) (raises : Bool)
  | propagate (i : Nat)
  | unwind (i : Nat) (o : Outcome ε)

variable {ε : Type}

/-- A service whose `_run` has been scheduled. -/
def Service.created (parent : Option Nat) (composed : Bool) : Service ε :=
  ⟨parent, composed, false, if composed then .spawning else .running, .fresh⟩

namespace State

/-- A service is changed. -/
def put (s : State ε) (i : Nat) (v : Service ε) : State ε :=
  { s with service := Function.update s.service i v }

/-- `ServiceLifetime.start`. -/
def start (s : State ε) (p : Nat) (composed : Bool) : State ε :=
  ⟨s.count + 1, Function.update s.service s.count (.created (some p) composed)⟩

/-- Every child of the service is at its end. -/
def ChildrenEnded (s : State ε) (i : Nat) : Prop :=
  ∀ c < s.count, (s.service c).parent = some i → (s.service c).stage = .ended

instance (s : State ε) (i : Nat) : Decidable (s.ChildrenEnded i) :=
  inferInstanceAs (Decidable (∀ c < s.count, _))

/-- The function of the service can come to its end: that of a composition returns when its children
have stopped. -/
def CanEnd (s : State ε) (i : Nat) (raises : Bool) : Prop :=
  (s.service i).stage = .spawning ∧ raises = true ∨
    (s.service i).stage = .running ∧
      ((s.service i).composed = false ∨ raises = true ∨ s.ChildrenEnded i)

instance (s : State ε) (i : Nat) (raises : Bool) : Decidable (s.CanEnd i raises) :=
  inferInstanceAs (Decidable (_ ∨ _))

/-- The service after a call of its lifetime. -/
def called (s : State ε) (i : Nat) (c : Call ε) : State ε :=
  s.put i { s.service i with lt := (s.service i).lt.after c }

/-- `propagate_shutdown`. -/
def handOn (s : State ε) (i : Nat) : State ε :=
  { s with service := fun c =>
      if c < s.count ∧ (s.service c).parent = some i then
        { s.service c with lt := (s.service c).lt.after (.shutdown none) }
      else if c = i then { s.service c with propagated := true }
      else s.service c }

/-- One step. -/
def step (s : State ε) : Act ε → Option (State ε)
  | .start p composed =>
    if p < s.count ∧ (s.service p).composed = false ∧
        ((s.service p).stage = .running ∨ (s.service p).stage = .leaving) then
          some (s.start p composed)
    else none
  | .spawn i kinds =>
    if i < s.count ∧ (s.service i).stage = .spawning then
      some (kinds.foldl (fun s composed => s.start i composed)
        (s.put i { s.service i with stage := .running }))
    else none
  | .call i c => if i < s.count then some (s.called i c) else none
  | .bodyEnds i raises =>
    -- after its function `_run` cancels what is left in the task group, an exception does it too
    if i < s.count ∧ s.CanEnd i raises then
      some (s.put i { s.service i with stage := .leaving, lt := (s.service i).lt.after .stop })
    else none
  | .propagate i =>
    if i < s.count ∧ (s.service i).composed = true ∧ (s.service i).stage = .running ∧
        (s.service i).lt.shuttingDown = true ∧ (s.service i).propagated = false
          then some (s.handOn i)
    else none
  | .unwind i o =>
    if i < s.count ∧ (s.service i).stage = .leaving ∧ s.ChildrenEnded i then
      let s' := s.put i { s.service i with stage := .ended, lt := (s.service i).lt.complete o }
      -- what is raised again ends in the task group of the parent
      match (s.service i).parent with
      | none => some s'
      | some p => some (if o.raises then s'.called p .stop else s')
    else none

/-- A root that has been scheduled. -/
def initial (composed : Bool) : State ε := ⟨1, fun _ => .created none composed⟩

end State

/-- The tree as a transition system. -/
def tree : Lts (State ε) (Act ε) := ⟨fun s => ∃ composed : Bool, s = .initial composed, State.step⟩

/-- `k` is `i`, or below it. -/
abbrev Below (s : State ε) (i k : Nat) : Prop :=
  Relation.ReflTransGen (fun p c => c < s.count ∧ (s.service c).parent = some p) i k

/-- A cancellation of the service, or of one above it, reaches its function. -/
def Cancelled (s : State ε) (k : Nat) : Prop :=
  ∃ i : Nat, Below s i k ∧ (s.service i).lt.cancelCalled = true

/-- The service is to end. -/
def Told (s : State ε) (i : Nat) : Prop := (s.service i).lt.shuttingDown = true ∨ Cancelled s i

/-- The steps of the services themselves. The function of a service ends when it has been told to;
that of a composition when it returns or is cancelled. -/
def ByItself (s : State ε) : Act ε → Prop
  | .start _ _ => False
  | .spawn _ _ => True
  | .call _ _ => False
  | .bodyEnds i raises => if (s.service i).composed then raises = true → Cancelled s i else Told s i
  | .propagate _ => True
  | .unwind _ _ => True

/-- The services have nothing more to do. -/
def Quiet (s : State ε) : Prop := ∀ a : Act ε, ByItself s a → s.step a = none

/-- The kind of an action that brings a service forward. -/
def Act.forward : Act ε → Bool
  | .start _ _ => false
  | .call _ _ => false
  | _ => true

/-! ## Lifetimes -/

section

variable {lt : ServiceLifetime ε}

/-- No call takes a shutdown back. -/
theorem shuttingDown_after (h : lt.shuttingDown = true ∨ lt.stopped = true) (c : Call ε) :
    (lt.after c).shuttingDown = true ∨ (lt.after c).stopped = true := by
  rcases h with h | h
  · left
    cases hstopped : lt.stopped <;> cases c <;>
      simp [ServiceLifetime.after, ServiceLifetime.perform, ServiceLifetime.body,
        ServiceLifetime.doSetStarted,
        ServiceLifetime.doSetShuttingDown, ServiceLifetime.doShutdown,
          ServiceLifetime.assign, Except.map,
        hstopped, h]
  · right
    rw [ServiceLifetime.stopped_after, h]

/-- After a call of `shutdown` the service is shutting down or has stopped. -/
theorem shuttingDown_after_shutdown (lt : ServiceLifetime ε) :
    (lt.after (.shutdown none)).shuttingDown = true ∨
    (lt.after (.shutdown none)).stopped = true := by
  cases hstopped : lt.stopped with
  | true =>
    right
    rw [ServiceLifetime.stopped_after, hstopped]
  | false =>
    left
    cases hdown : lt.shuttingDown <;>
      simp [ServiceLifetime.after, ServiceLifetime.perform, ServiceLifetime.body,
        ServiceLifetime.doShutdown, ServiceLifetime.assign, Except.map, hstopped, hdown]

theorem cancelCalled_after_stop (lt : ServiceLifetime ε) :
    (lt.after .stop).cancelCalled = true := rfl

end

/-! ## The invariant -/

/-- What holds in every state of a run. -/
structure Inv (s : State ε) : Prop where
  rooted : 0 < s.count
  parent : ∀ i < s.count, ∀ p : Nat, (s.service i).parent = some p → p < i
  child : ∀ i < s.count, i ≠ 0 → (s.service i).parent ≠ none
  stopped : ∀ i < s.count, (s.service i).lt.stopped = true ↔ (s.service i).stage = .ended
  cancelled : ∀ i < s.count, (s.service i).stage = .leaving ∨ (s.service i).stage = .ended →
    (s.service i).lt.cancelCalled = true
  nested : ∀ i < s.count, (s.service i).stage = .ended → s.ChildrenEnded i
  spawning : ∀ i < s.count, (s.service i).stage = .spawning → (s.service i).propagated = false ∧
    ∀ c < s.count, (s.service c).parent ≠ some i
  own : ∀ i < s.count, (s.service i).propagated = true → (s.service i).composed = true
  told : ∀ i < s.count, (s.service i).propagated = true → ∀ c < s.count,
    (s.service c).parent = some i →
    (s.service c).lt.shuttingDown = true ∨ (s.service c).lt.stopped = true

/-- The root alone is a tree. -/
theorem inv_initial (composed : Bool) : Inv (State.initial composed : State ε) where
  rooted := Nat.one_pos
  parent i _ p h := by cases h
  child i hi h0 := absurd (Nat.lt_one_iff.1 hi) h0
  stopped i _ := by cases composed <;> simp [State.initial, Service.created, ServiceLifetime.fresh]
  cancelled i _ h := by cases composed <;> simp [State.initial, Service.created] at h
  nested i _ _ c _ h := by cases h
  spawning i _ _ := ⟨rfl, fun c _ h => nomatch h⟩
  own i _ h := by cases h
  told i _ h := by cases h

/-- A service is changed. -/
theorem Inv.put {s : State ε} (h : Inv s) {i : Nat} (hi : i < s.count) {v : Service ε}
    (hparent : v.parent = (s.service i).parent) (hcomposed : v.composed = (s.service i).composed)
    (hpropagated : v.propagated = (s.service i).propagated)
    (hstopped : v.lt.stopped = true ↔ v.stage = .ended)
    (hcancelled : v.stage = .leaving ∨ v.stage = .ended → v.lt.cancelCalled = true)
    (hended : v.stage = .ended → s.ChildrenEnded i)
    (hkeeps : (s.service i).stage = .ended → v.stage = .ended)
    (hspawning : v.stage = .spawning → (s.service i).stage = .spawning)
    (htold : (s.service i).lt.shuttingDown = true ∨ (s.service i).lt.stopped = true →
      v.lt.shuttingDown = true ∨ v.lt.stopped = true) : Inv (s.put i v) := by
  -- Only service `i` is another one, and it has its parent.
  have hself : (s.put i v).service i = v := Function.update_self ..
  have hother : ∀ k : Nat, k ≠ i → (s.put i v).service k = s.service k := fun k hk =>
    Function.update_of_ne hk ..
  have hparents : ∀ k : Nat, ((s.put i v).service k).parent = (s.service k).parent := by
    intro k
    by_cases hk : k = i
    · subst hk
      rw [hself, hparent]
    · rw [hother k hk]
  -- the children of any service that had all ended have ended
  have hchildren : ∀ k : Nat, s.ChildrenEnded k → (s.put i v).ChildrenEnded k := by
    intro k hk c hc hp
    rw [hparents c] at hp
    by_cases hci : c = i
    · subst hci
      rw [hself]
      -- an ended service stays ended
      exact hkeeps (hk c hc hp)
    · rw [hother c hci]
      exact hk c hc hp
  constructor
  · exact h.rooted
  · intro k hk p hp
    rw [hparents k] at hp
    exact h.parent k hk p hp
  · intro k hk h0
    rw [hparents k]
    exact h.child k hk h0
  · intro k hk
    by_cases hki : k = i
    · subst hki
      rw [hself]
      exact hstopped
    · rw [hother k hki]
      exact h.stopped k hk
  · intro k hk
    by_cases hki : k = i
    · subst hki
      rw [hself]
      exact hcancelled
    · rw [hother k hki]
      exact h.cancelled k hk
  -- its own end waits for the children, the others' ends came before
  · intro k hk hstage
    by_cases hki : k = i
    · subst hki
      rw [hself] at hstage
      exact hchildren k (hended hstage)
    · rw [hother k hki] at hstage
      exact hchildren k (h.nested k hk hstage)
  · intro k hk hstage
    simp only [hparents]
    by_cases hki : k = i
    · subst hki
      -- no service has a child before it leaves `spawning`
      rw [hself] at hstage ⊢
      obtain ⟨hfalse, hnone⟩ := h.spawning k hk (hspawning hstage)
      exact ⟨hpropagated.trans hfalse, hnone⟩
    · rw [hother k hki] at hstage ⊢
      exact h.spawning k hk hstage
  · intro k hk htrue
    by_cases hki : k = i
    · subst hki
      rw [hself] at htrue ⊢
      rw [hpropagated] at htrue
      exact hcomposed.trans (h.own k hk htrue)
    · rw [hother k hki] at htrue ⊢
      exact h.own k hk htrue
  · intro k hk htrue c hc hp
    rw [hparents c] at hp
    have hpropagated' : (s.service k).propagated = true := by
      by_cases hki : k = i
      · subst hki
        rw [hself] at htrue
        exact hpropagated.symm.trans htrue
      · rw [hother k hki] at htrue
        exact htrue
    -- whom the parent has told stays told, also when that one is `i`
    have hold := h.told k hk hpropagated' c hc hp
    by_cases hci : c = i
    · subst hci
      rw [hself]
      exact htold hold
    · rw [hother c hci]
      exact hold

theorem Inv.called {s : State ε} (h : Inv s) {i : Nat} (hi : i < s.count) (c : Call ε) :
    Inv (s.called i c) := by
  refine h.put hi rfl rfl rfl ?_ ?_ (h.nested i hi) ?_ ?_ ?_
  · rw [ServiceLifetime.stopped_after]
    exact h.stopped i hi
  · intro hstage
    exact ServiceLifetime.cancelCalled_after (h.cancelled i hi hstage) c
  · exact fun hstage => hstage
  · exact fun hstage => hstage
  · exact fun htold => shuttingDown_after htold c

/-- A service that runs or leaves, and has not handed anything on, gets one more child. -/
theorem Inv.start {s : State ε} (h : Inv s) {p : Nat} (hp : p < s.count)
    (hended : (s.service p).stage ≠ .ended)
    (hspawning : (s.service p).stage ≠ .spawning) (hpropagated : (s.service p).propagated = false)
    (composed : Bool) : Inv (s.start p composed) := by
  -- The new service has the next number, no children and has not been told anything.
  have hself : (s.start p composed).service s.count = .created (some p) composed :=
    Function.update_self ..
  have hother : ∀ k < s.count, (s.start p composed).service k = s.service k :=
    fun k hk => Function.update_of_ne (Nat.ne_of_lt hk) ..
  have hcount : (s.start p composed).count = s.count + 1 := rfl
  have hnew : ∀ k < s.count + 1, k < s.count ∨ k = s.count := fun k hk =>
    Nat.lt_succ_iff_lt_or_eq.1 hk
  constructor
  · exact Nat.succ_pos _
  · intro k hk q hq
    rcases hnew k hk with hk | rfl
    · rw [hother k hk] at hq
      exact h.parent k hk q hq
    · rw [hself] at hq
      cases hq
      exact hp
  · intro k hk h0
    rcases hnew k hk with hk | rfl
    · rw [hother k hk]
      exact h.child k hk h0
    · rw [hself]
      exact Option.some_ne_none p
  · intro k hk
    rcases hnew k hk with hk | rfl
    · rw [hother k hk]
      exact h.stopped k hk
    · rw [hself]
      cases composed <;> simp [Service.created, ServiceLifetime.fresh]
  · intro k hk hstage
    rcases hnew k hk with hk | rfl
    · rw [hother k hk] at hstage ⊢
      exact h.cancelled k hk hstage
    · rw [hself] at hstage
      cases composed <;> simp [Service.created] at hstage
  · intro k hk hstage c hc hparent
    rcases hnew k hk with hk | rfl
    · rw [hother k hk] at hstage
      rcases hnew c hc with hc | rfl
      · rw [hother c hc] at hparent ⊢
        exact h.nested k hk hstage c hc hparent
      · rw [hself] at hparent
        -- its parent has not ended, so it breaks no end that was nested
        cases hparent
        exact absurd hstage hended
    · rw [hself] at hstage
      cases composed <;> cases hstage
  · intro k hk hstage
    rcases hnew k hk with hk | rfl
    · rw [hother k hk] at hstage ⊢
      obtain ⟨hfalse, hnone⟩ := h.spawning k hk hstage
      refine ⟨hfalse, fun c hc => ?_⟩
      rcases hnew c hc with hc | rfl
      · rw [hother c hc]
        exact hnone c hc
      · rw [hself]
        intro hparent
        -- nor is its parent still spawning
        cases hparent
        exact hspawning hstage
    · rw [hself]
      refine ⟨rfl, fun c hc hparent => ?_⟩
      rcases hnew c hc with hc | rfl
      · rw [hother c hc] at hparent
        exact Nat.lt_asymm hc (h.parent c hc _ hparent)
      -- a service is no parent of itself: its parent has a smaller number
      · rw [hself] at hparent
        cases hparent
        exact Nat.lt_irrefl _ hp
  · intro k hk htrue
    rcases hnew k hk with hk | rfl
    · rw [hother k hk] at htrue ⊢
      exact h.own k hk htrue
    · rw [hself] at htrue
      cases htrue
  · intro k hk htrue c hc hparent
    rcases hnew k hk with hk | rfl
    · rw [hother k hk] at htrue
      rcases hnew c hc with hc | rfl
      · rw [hother c hc] at hparent ⊢
        exact h.told k hk htrue c hc hparent
      · rw [hself] at hparent
        -- the parent has not passed a shutdown on, so the new child has missed none
        cases hparent
        rw [hpropagated] at htrue
        cases htrue
    · rw [hself] at htrue
      cases htrue

/-- A composition starts its children one after the other. -/
theorem Inv.starts {s : State ε} (h : Inv s) {p : Nat} (hp : p < s.count)
    (hstage : (s.service p).stage = .running)
    (hpropagated : (s.service p).propagated = false) (kinds : List Bool) :
    Inv (kinds.foldl (fun s composed => s.start p composed) s) := by
  induction kinds generalizing s with
  | nil => exact h
  | cons composed kinds ih =>
    have hother : (s.start p composed).service p = s.service p :=
      Function.update_of_ne (Nat.ne_of_lt hp) ..
    apply ih
    · apply h.start hp
      · rw [hstage]
        exact fun heq => nomatch heq
      · rw [hstage]
        exact fun heq => nomatch heq
      · exact hpropagated
    · exact Nat.lt_succ_of_lt hp
    · rw [hother, hstage]
    · rw [hother, hpropagated]

/-- Children that are started keep the tree. -/
theorem Inv.spawn {s : State ε} (h : Inv s) {i : Nat} (hi : i < s.count)
    (hstage : (s.service i).stage = .spawning)
    (kinds : List Bool) : Inv (kinds.foldl (fun s composed => s.start i composed)
      (s.put i { s.service i with stage := .running })) := by
  have hself : (s.put i { s.service i with stage := .running }).service i =
      { s.service i with stage := .running } := Function.update_self ..
  -- First the stage of the parent, then its children one by one.
  have hput : Inv (s.put i { s.service i with stage := .running }) := by
    refine h.put hi rfl rfl rfl ?_ ?_ ?_ ?_ ?_ (fun htold => htold)
    · have hstopped := h.stopped i hi
      rw [hstage] at hstopped
      rw [hstopped]
      simp
    · rintro (heq | heq)
      · cases heq
      · cases heq
    · intro heq
      cases heq
    · intro heq
      rw [hstage] at heq
      cases heq
    · intro heq
      cases heq
  apply hput.starts hi
  · rw [hself]
  · rw [hself]
    exact (h.spawning i hi hstage).1

/-- The end of a body keeps the tree. -/
theorem Inv.bodyEnds {s : State ε} (h : Inv s) {i : Nat} (hi : i < s.count)
    (hstage : (s.service i).stage = .spawning ∨ (s.service i).stage = .running) :
    Inv (s.put i { s.service i with stage := .leaving, lt := (s.service i).lt.after .stop }) := by
  have hne : (s.service i).stage ≠ .ended := by
    intro heq
    rw [heq] at hstage
    rcases hstage with heq | heq <;> cases heq
  refine h.put hi rfl rfl rfl ?_ (fun _ => cancelCalled_after_stop _) ?_ ?_ ?_ ?_
  · rw [ServiceLifetime.stopped_after, h.stopped i hi]
    simp [hne]
  · intro heq
    cases heq
  · exact fun heq => absurd heq hne
  · intro heq
    cases heq
  · exact fun htold => shuttingDown_after htold .stop

section

variable {s : State ε} {i : Nat}

theorem handOn_child {c : Nat} (hc : c < s.count) (hp : (s.service c).parent = some i) :
    (s.handOn i).service c = { s.service c with lt := (s.service c).lt.after (.shutdown none) } :=
    if_pos ⟨hc, hp⟩

theorem handOn_self (hp : (s.service i).parent ≠ some i) :
    (s.handOn i).service i = { s.service i with propagated := true } :=
  (if_neg fun hand => hp hand.2).trans (if_pos rfl)

theorem handOn_other {c : Nat} (hc : ¬(c < s.count ∧ (s.service c).parent = some i)) (hci : c ≠ i) :
    (s.handOn i).service c = s.service c := (if_neg hc).trans (if_neg hci)

/-- Handing on the shutdown changes nothing of a child but its lifetime. -/
theorem handOn_parent (c : Nat) : ((s.handOn i).service c).parent = (s.service c).parent ∧
    ((s.handOn i).service c).stage = (s.service c).stage ∧
    ((s.handOn i).service c).composed = (s.service c).composed ∧
    ((s.handOn i).service c).lt.stopped = (s.service c).lt.stopped := by
  change (if _ then _ else _ : Service ε).parent = _ ∧ (if _ then _ else _ : Service ε).stage = _ ∧
    (if _ then _ else _ : Service ε).composed = _ ∧ (if _ then _ else _ : Service ε).lt.stopped = _
  split
  · exact ⟨rfl, rfl, rfl, ServiceLifetime.stopped_after _ _⟩
  · split
    · exact ⟨rfl, rfl, rfl, rfl⟩
    · exact ⟨rfl, rfl, rfl, rfl⟩

end

/-- A composition that hands the shutdown on keeps the tree. -/
theorem Inv.handOn {s : State ε} (h : Inv s) {i : Nat} (hi : i < s.count)
    (hcomposed : (s.service i).composed = true) (hstage : (s.service i).stage = .running) :
    Inv (s.handOn i) := by
  -- a service is never its own child, so what is handed on does not reach `i` itself
  have hpi : (s.service i).parent ≠ some i := fun hp => Nat.lt_irrefl i (h.parent i hi i hp)
  have hcancelled : ∀ k < s.count, (s.service k).lt.cancelCalled = true →
      ((s.handOn i).service k).lt.cancelCalled = true := by
    intro k hk hc
    -- a child may be cancelled by what it is told, and is not un-cancelled
    by_cases hp : (s.service k).parent = some i
    · rw [handOn_child hk hp]
      exact ServiceLifetime.cancelCalled_after hc _
    · by_cases hki : k = i
      · subst hki
        rw [handOn_self hpi]
        exact hc
      · rw [handOn_other (fun hand => hp hand.2) hki]
        exact hc
  have hpropagated : ∀ k : Nat, k ≠ i → ((s.handOn i).service k).propagated =
      (s.service k).propagated := by
    intro k hki
    by_cases hand : k < s.count ∧ (s.service k).parent = some i
    · rw [handOn_child hand.1 hand.2]
    · rw [handOn_other hand hki]
  have hchildren : ∀ k : Nat, s.ChildrenEnded k → (s.handOn i).ChildrenEnded k := by
    intro k hk c hc hp
    rw [(handOn_parent c).1] at hp
    -- stages and parents are those of before, so an end that was nested is
    rw [(handOn_parent c).2.1]
    exact hk c hc hp
  have htold : ∀ c < s.count, (s.service c).lt.shuttingDown = true ∨
    (s.service c).lt.stopped = true →
      ((s.handOn i).service c).lt.shuttingDown = true ∨
          ((s.handOn i).service c).lt.stopped = true := by
    intro c hc hold
    by_cases hp : (s.service c).parent = some i
    · rw [handOn_child hc hp]
      exact shuttingDown_after hold _
    · by_cases hci : c = i
      · subst hci
        rw [handOn_self hpi]
        exact hold
      · rw [handOn_other (fun hand => hp hand.2) hci]
        exact hold
  constructor
  · exact h.rooted
  · intro k hk p hp
    rw [(handOn_parent k).1] at hp
    exact h.parent k hk p hp
  · intro k hk h0
    rw [(handOn_parent k).1]
    exact h.child k hk h0
  · intro k hk
    rw [(handOn_parent k).2.2.2, (handOn_parent k).2.1]
    exact h.stopped k hk
  · intro k hk hleaving
    rw [(handOn_parent k).2.1] at hleaving
    exact hcancelled k hk (h.cancelled k hk hleaving)
  · intro k hk hended
    rw [(handOn_parent k).2.1] at hended
    exact hchildren k (h.nested k hk hended)
  · intro k hk hspawning
    rw [(handOn_parent k).2.1] at hspawning
    obtain ⟨hfalse, hnone⟩ := h.spawning k hk hspawning
    -- `i` is running, so it is none of those that still spawn
    have hki : k ≠ i := by
      rintro rfl
      rw [hstage] at hspawning
      cases hspawning
    refine ⟨(hpropagated k hki).trans hfalse, fun c hc => ?_⟩
    rw [(handOn_parent c).1]
    exact hnone c hc
  · intro k hk htrue
    rw [(handOn_parent k).2.2.1]
    by_cases hki : k = i
    · subst hki
      exact hcomposed
    · rw [hpropagated k hki] at htrue
      exact h.own k hk htrue
  · intro k hk htrue c hc hp
    rw [(handOn_parent c).1] at hp
    -- `i` has just told its children; the others had done so before
    by_cases hki : k = i
    · subst hki
      rw [handOn_child (s := s) hc hp]
      exact shuttingDown_after_shutdown _
    · rw [hpropagated k hki] at htrue
      exact htold c hc (h.told k hk htrue c hc hp)

/-- A service that ends after its children keeps the tree. -/
theorem Inv.unwind {s : State ε} (h : Inv s) {i : Nat} (hi : i < s.count)
    (hstage : (s.service i).stage = .leaving) (hchildren : s.ChildrenEnded i) (o : Outcome ε) :
    Inv (s.put i { s.service i with stage := .ended, lt := (s.service i).lt.complete o }) := by
  refine h.put hi rfl rfl rfl ?_ ?_ (fun _ => hchildren) (fun _ => rfl) ?_ ?_
  · rw [ServiceLifetime.stopped_complete]
    simp
  · intro _
    rw [ServiceLifetime.cancelCalled_complete]
    exact h.cancelled i hi (.inl hstage)
  · intro heq
    cases heq
  · intro _
    right
    exact ServiceLifetime.stopped_complete _ _

/-- Every step keeps the tree. -/
theorem Inv.step {s t : State ε} (h : Inv s) {a : Act ε} (hstep : s.step a = some t) : Inv t := by
  cases a with
  | start p composed =>
    simp only [State.step, Option.ite_none_right_eq_some, Option.some.injEq] at hstep
    obtain ⟨⟨hp, hown, hstage⟩, rfl⟩ := hstep
    apply h.start hp
    -- the parent of a new service is running or leaving
    · intro heq
      rw [heq] at hstage
      rcases hstage with heq | heq <;> cases heq
    · intro heq
      rw [heq] at hstage
      rcases hstage with heq | heq <;> cases heq
    -- a plain service hands nothing on, and only a plain one starts a child by itself
    · cases hpropagated : (s.service p).propagated with
      | false => rfl
      | true =>
        have hcomposed := h.own p hp hpropagated
        rw [hown] at hcomposed
        cases hcomposed
  | spawn i kinds =>
    simp only [State.step, Option.ite_none_right_eq_some, Option.some.injEq] at hstep
    obtain ⟨⟨hi, hstage⟩, rfl⟩ := hstep
    exact h.spawn hi hstage kinds
  | call i c =>
    simp only [State.step, Option.ite_none_right_eq_some, Option.some.injEq] at hstep
    obtain ⟨hi, rfl⟩ := hstep
    exact h.called hi c
  | bodyEnds i raises =>
    simp only [State.step, Option.ite_none_right_eq_some, Option.some.injEq] at hstep
    obtain ⟨⟨hi, hcan⟩, rfl⟩ := hstep
    exact h.bodyEnds hi (hcan.imp And.left And.left)
  | propagate i =>
    simp only [State.step, Option.ite_none_right_eq_some, Option.some.injEq] at hstep
    obtain ⟨⟨hi, hcomposed, hstage, -⟩, rfl⟩ := hstep
    exact h.handOn hi hcomposed hstage
  | unwind i o =>
    simp only [State.step] at hstep
    split at hstep
    · rename_i hcond
      obtain ⟨hi, hstage, hchildren⟩ := hcond
      -- the end needs the ends of all children
      have hended := h.unwind hi hstage hchildren o
      split at hstep
      · cases hstep
        exact hended
      · rename_i p hp
        cases hstep
        split
        -- a child that raised stops its parent: a call on a service with a smaller number
        · exact hended.called (Nat.lt_trans (h.parent i hi p hp) hi) .stop
        · exact hended
    · cases hstep

theorem inv_reachable {s : State ε} (h : tree.Reachable s) : Inv s := by
  apply Lts.invariant _ _ h
  · rintro s ⟨composed, rfl⟩
    exact inv_initial composed
  · intro s a t hs hstep
    exact hs.step hstep

/-! ## What stops when -/

/-- No service has stopped before everything below it has. -/
theorem Inv.stopped_below {s : State ε} (h : Inv s) {i k : Nat} (hi : i < s.count)
    (hstage : (s.service i).stage = .ended) (hbelow : Below s i k) :
    (s.service k).stage = .ended := by
  have hboth : k < s.count ∧ (s.service k).stage = .ended := by
    induction hbelow with
    | refl => exact ⟨hi, hstage⟩
    | tail _ hchild ih => exact ⟨hchild.1, h.nested _ ih.1 ih.2 _ hchild.1 hchild.2⟩
  exact hboth.2

/-- Everything is below the root. -/
theorem Inv.below_root {s : State ε} (h : Inv s) (k : Nat) (hk : k < s.count) : Below s 0 k := by
  induction k using Nat.strongRecOn with
  | _ k ih =>
    by_cases h0 : k = 0
    · subst h0
      exact .refl
    · obtain ⟨p, hp⟩ := Option.ne_none_iff_exists'.1 (h.child k hk h0)
      have hlt := h.parent k hk p hp
      exact (ih p hlt (Nat.lt_trans hlt hk)).tail ⟨hk, hp⟩

/-- Where nothing goes on by itself, a service that is to end is at its end. -/
theorem Inv.ended_of_told {s : State ε} (h : Inv s) (hquiet : Quiet s) (n i : Nat)
    (hn : s.count - i ≤ n)
    (hi : i < s.count) (htold : Told s i) : (s.service i).stage = .ended := by
  induction n generalizing i with
  | zero => omega
  | succ n ih =>
    -- the children are later services
    have hchildren : (∀ c < s.count, (s.service c).parent = some i →
        Told s c ∨ (s.service c).stage = .ended) → s.ChildrenEnded i := by
      intro hall c hc hp
      have hlt := h.parent c hc i hp
      rcases hall c hc hp with htold | hended
      · exact ih c (by omega) hc htold
      · exact hended
    have hcancels : Cancelled s i → s.ChildrenEnded i := by
      rintro ⟨j, hbelow, hcancel⟩
      exact hchildren fun c hc hp => .inl (.inr ⟨j, hbelow.tail ⟨hc, hp⟩, hcancel⟩)
    cases hstage : (s.service i).stage with
    | ended => rfl
    | leaving =>
      have hended := hcancels ⟨i, .refl, h.cancelled i hi (.inl hstage)⟩
      have hnone := hquiet (.unwind i .returned) trivial
      simp only [State.step, if_pos (show _ ∧ _ ∧ _ from ⟨hi, hstage, hended⟩)] at hnone
      split at hnone
      · cases hnone
      · cases hnone
    | spawning =>
      have hnone := hquiet (.spawn i []) trivial
      rw [State.step, if_pos ⟨hi, hstage⟩] at hnone
      cases hnone
    | running =>
      cases hcomposed : (s.service i).composed with
      | false =>
        have hnone := hquiet (.bodyEnds i false) (by rw [ByItself, hcomposed]; exact htold)
        rw [State.step, if_pos ⟨hi, .inr ⟨hstage, .inl hcomposed⟩⟩] at hnone
        cases hnone
      | true =>
        have hended : s.ChildrenEnded i := by
          rcases htold with hdown | hcancelled
          · -- the shutdown has been handed on
            have hpropagated : (s.service i).propagated = true := by
              cases hpropagated : (s.service i).propagated with
              | true => rfl
              | false =>
                have hnone := hquiet (.propagate i) trivial
                rw [State.step, if_pos ⟨hi, hcomposed, hstage, hdown, hpropagated⟩] at hnone
                cases hnone
            apply hchildren
            intro c hc hp
            rcases h.told i hi hpropagated c hc hp with hdown | hstopped
            · exact .inl (.inl hdown)
            · exact .inr ((h.stopped c hc).1 hstopped)
          · exact hcancels hcancelled
        have hnone :=
          hquiet (.bodyEnds i false) (by rw [ByItself, hcomposed]; exact fun heq => nomatch heq)
        rw [State.step, if_pos ⟨hi, .inr ⟨hstage, .inr (.inr hended)⟩⟩] at hnone
        cases hnone

/-! ## How many steps it takes -/

/-- The place of a stage in a life. -/
def Stage.rank : Stage → Nat
  | .spawning => 0
  | .running => 1
  | .leaving => 2
  | .ended => 3

/-- How far a service has come. -/
def Service.progress (v : Service ε) : Nat := v.stage.rank + if v.propagated then 1 else 0

theorem progress_le (v : Service ε) : v.progress ≤ 4 := by
  have hrank : v.stage.rank ≤ 3 := by cases v.stage <;> decide
  have hone : (if v.propagated then 1 else 0) ≤ 1 := by split <;> decide
  exact Nat.add_le_add hrank hone

/-- How far all services have come. -/
def total (s : State ε) : Nat := ∑ i ∈ Finset.range s.count, (s.service i).progress

theorem total_le (s : State ε) : total s ≤ 4 * s.count := by
  calc total s ≤ ∑ _i ∈ Finset.range s.count, 4 := Finset.sum_le_sum fun i _ => progress_le _
    _ = s.count * 4 := by
      rw [Finset.sum_const_nat fun _ _ => rfl, Finset.card_range]
    _ = 4 * s.count := Nat.mul_comm _ _

/-- The total grows by what the service advances. -/
theorem total_put {s : State ε} {i : Nat} (hi : i < s.count) (v : Service ε) :
    total (s.put i v) + (s.service i).progress = total s + v.progress := by
  have hprogress : (fun k => ((s.put i v).service k).progress) =
      Function.update (fun k => (s.service k).progress) i v.progress := by
    funext k
    by_cases hk : k = i
    · subst hk
      rw [Function.update_self]
      exact congrArg Service.progress (Function.update_self ..)
    · rw [Function.update_of_ne hk]
      exact congrArg Service.progress (Function.update_of_ne hk ..)
  have hmem := Finset.mem_range.2 hi
  change (∑ k ∈ Finset.range s.count, (fun k => ((s.put i v).service k).progress) k) + _ = _
  rw [hprogress, Finset.sum_update_of_mem hmem, total, ← Finset.add_sum_erase _ _ hmem,
    Finset.sdiff_singleton_eq_erase]
  omega

/-- A service has come `d` stages further. -/
theorem total_put_stage {s : State ε} {i : Nat} (hi : i < s.count) (stage : Stage)
    (lt : ServiceLifetime ε) (d : Nat) (hrank : stage.rank = (s.service i).stage.rank + d) :
    total (s.put i { s.service i with stage := stage, lt := lt }) = total s + d := by
  have hprogress : ({ s.service i with stage := stage, lt := lt } : Service ε).progress =
      (s.service i).progress + d := by
    change stage.rank + _ = _
    rw [hrank, Service.progress, Nat.add_right_comm]
  have hput := total_put hi { s.service i with stage := stage, lt := lt }
  rw [hprogress] at hput
  omega

theorem total_called {s : State ε} {i : Nat} (hi : i < s.count) (c : Call ε) :
    total (s.called i c) = total s :=
  total_put_stage hi (s.service i).stage ((s.service i).lt.after c) 0 rfl

theorem total_start (s : State ε) (p : Nat) (composed : Bool) :
    total s ≤ total (s.start p composed) := by
  change _ ≤ ∑ k ∈ Finset.range (s.count + 1), ((s.start p composed).service k).progress
  rw [Finset.sum_range_succ]
  apply Nat.le_trans _ (Nat.le_add_right _ _)
  apply Nat.le_of_eq
  apply Finset.sum_congr rfl
  intro k hk
  exact (congrArg Service.progress
    (Function.update_of_ne (Nat.ne_of_lt (Finset.mem_range.1 hk)) ..)).symm

theorem total_starts (s : State ε) (p : Nat) (kinds : List Bool) :
    total s ≤ total (kinds.foldl (fun s composed => s.start p composed) s) := by
  induction kinds generalizing s with
  | nil => exact Nat.le_refl _
  | cons composed kinds ih => exact Nat.le_trans (total_start s p composed) (ih _)

/-- A composition that hands the shutdown on advances. -/
theorem total_handOn {s : State ε} (h : Inv s) {i : Nat} (hi : i < s.count)
    (hpropagated : (s.service i).propagated = false) : total s + 1 ≤ total (s.handOn i) := by
  have hpi : (s.service i).parent ≠ some i := fun hp => Nat.lt_irrefl i (h.parent i hi i hp)
  have hmem := Finset.mem_range.2 hi
  change _ ≤ ∑ k ∈ Finset.range s.count, ((s.handOn i).service k).progress
  rw [total, ← Finset.add_sum_erase _ _ hmem, ← Finset.add_sum_erase _ _ hmem, handOn_self hpi]
  have hsum : ∑ k ∈ (Finset.range s.count).erase i, (s.service k).progress =
      ∑ k ∈ (Finset.range s.count).erase i, ((s.handOn i).service k).progress := by
    apply Finset.sum_congr rfl
    intro k hk
    obtain ⟨hki, hk⟩ := Finset.mem_erase.1 hk
    by_cases hp : (s.service k).parent = some i
    · rw [handOn_child (Finset.mem_range.1 hk) hp]
      rfl
    · rw [handOn_other (fun hand => hp hand.2) hki]
  rw [← hsum]
  simp only [Service.progress, hpropagated]
  simp only [Bool.false_eq_true, if_false, if_true]
  omega

/-- A step of the services brings one of them forward, and nothing brings any back. -/
theorem total_step {s t : State ε} (h : Inv s) {a : Act ε} (hstep : s.step a = some t) :
    total s + (if a.forward then 1 else 0) ≤ total t := by
  cases a with
  | start p composed =>
    simp only [State.step, Option.ite_none_right_eq_some, Option.some.injEq] at hstep
    obtain ⟨-, rfl⟩ := hstep
    exact total_start s p composed
  | spawn i kinds =>
    simp only [State.step, Option.ite_none_right_eq_some, Option.some.injEq] at hstep
    obtain ⟨⟨hi, hstage⟩, rfl⟩ := hstep
    -- the stage counts one, and the children that are spawned only add to the total
    have hput := total_put_stage hi .running (s.service i).lt 1 (by rw [hstage]; rfl)
    exact hput ▸ total_starts _ i kinds
  | call i c =>
    simp only [State.step, Option.ite_none_right_eq_some, Option.some.injEq] at hstep
    obtain ⟨hi, rfl⟩ := hstep
    exact Nat.le_of_eq (total_called hi c).symm
  | bodyEnds i raises =>
    simp only [State.step, Option.ite_none_right_eq_some, Option.some.injEq] at hstep
    obtain ⟨⟨hi, hcan⟩, rfl⟩ := hstep
    -- from `spawning` to `leaving` is two stages, from `running` one
    rcases hcan with ⟨hstage, -⟩ | ⟨hstage, -⟩
    · rw [total_put_stage hi .leaving _ 2 (by rw [hstage]; rfl)]
      exact Nat.le_succ _
    · exact Nat.le_of_eq (total_put_stage hi .leaving _ 1 (by rw [hstage]; rfl)).symm
  | propagate i =>
    simp only [State.step, Option.ite_none_right_eq_some, Option.some.injEq] at hstep
    obtain ⟨⟨hi, -, -, -, hpropagated⟩, rfl⟩ := hstep
    exact total_handOn h hi hpropagated
  | unwind i o =>
    simp only [State.step] at hstep
    split at hstep
    · rename_i hcond
      obtain ⟨hi, hstage, -⟩ := hcond
      have hput := total_put_stage hi .ended ((s.service i).lt.complete o) 1 (by rw [hstage]; rfl)
      change total s + 1 ≤ _
      split at hstep
      · cases hstep
        exact Nat.le_of_eq hput.symm
      · rename_i p hp
        cases hstep
        -- the `stop` of the parent changes no stage
        split
        · rw [total_called (s := s.put i _) (Nat.lt_trans (h.parent i hi p hp) hi)]
          exact Nat.le_of_eq hput.symm
        · exact Nat.le_of_eq hput.symm
    · cases hstep

/-- The steps that the services take by themselves are no more than the total has grown. -/
theorem forward_le {s t : State ε} (h : Inv s) {es : List (Act ε)}
    (hrun : tree.exec s es = some t) : es.countP Act.forward + total s ≤ total t := by
  induction es generalizing s with
  | nil =>
    cases hrun
    exact Nat.le_of_eq (Nat.zero_add _)
  | cons a es ih =>
    obtain ⟨u, hu, hrest⟩ := (Lts.exec_cons _).1 hrun
    have hle := ih (h.step hu) hrest
    have hone := total_step h hu
    rw [List.countP_cons]
    omega

/-- In every run of a tree of services, the services take at most four steps each by themselves; no
service has stopped before everything below it has; and where they have nothing more to do, and the
root has been shut down or cancelled, every service has stopped. -/
theorem shutdown_covers {composed : Bool} {es : List (Act ε)} {s : State ε}
    (hrun : tree.exec (.initial composed) es = some s) :
    es.countP Act.forward ≤ 4 * s.count ∧
      (∀ i < s.count, (s.service i).lt.stopped = true → ∀ k : Nat, Below s i k →
        (s.service k).lt.stopped = true) ∧
      (Quiet s → (s.service 0).lt.shuttingDown = true ∨ (s.service 0).lt.cancelCalled = true →
        ∀ k < s.count, (s.service k).lt.stopped = true) := by
  have hinv : Inv s := inv_reachable ⟨_, es, ⟨composed, rfl⟩, hrun⟩
  -- an ended service has all services below it ended, and an ended one is stopped
  have hbelow : ∀ i < s.count, (s.service i).stage = .ended → ∀ k : Nat, Below s i k →
      (s.service k).lt.stopped = true := by
    intro i hi hended k hk
    have hcount : k < s.count := by
      cases hk with
      | refl => exact hi
      | tail _ hchild => exact hchild.1
    exact (hinv.stopped k hcount).2 (hinv.stopped_below hi hended hk)
  refine ⟨?_, fun i hi hstopped => hbelow i hi ((hinv.stopped i hi).1 hstopped),
    fun hquiet htold k hk => ?_⟩
  -- every forward step takes one of at most four units that a service has
  · calc es.countP Act.forward ≤ es.countP Act.forward + total (.initial composed) :=
      Nat.le_add_right _ _
      _ ≤ total s := forward_le (inv_initial composed) hrun
      _ ≤ 4 * s.count := total_le s
  -- what the root has been told reaches each service when nothing more is to be done
  · have hroot : Told s 0 := htold.imp (fun hdown => hdown) fun hcancel => ⟨0, .refl, hcancel⟩
    have hended := hinv.ended_of_told hquiet s.count 0 (Nat.sub_le _ _) hinv.rooted hroot
    exact hbelow 0 hinv.rooted hended k (hinv.below_root k hk)

/-- Two services that are composed; the first one fails, then the composition is shut down. -/
def failsAlone : List (Act Nat) :=
  [.spawn 0 [false, false], .bodyEnds 1 true, .unwind 1 (.failed (.single 7)),
    .call 0 (.shutdown none), .propagate 0,
    .bodyEnds 2 false, .unwind 2 .returned, .bodyEnds 0 false, .unwind 0 .returned]

theorem shutdown_covers_failsAlone :
    ∃ s, tree.exec (.initial true) failsAlone = some s ∧ (s.service 0).lt.exception.isNone = true ∧
      (s.service 2).lt.stopped = true := by
  have hsome : (tree.exec (.initial true) failsAlone).isSome = true := rfl
  have hrun := (Option.some_get hsome).symm
  obtain ⟨-, hstopped, -⟩ := shutdown_covers hrun
  exact ⟨_, hrun, rfl, hstopped 0 (show 0 < 3 by decide) rfl 2
    (.single ⟨(show 2 < 3 by decide), rfl⟩)⟩

end LocalPost.Hosting.Tree
