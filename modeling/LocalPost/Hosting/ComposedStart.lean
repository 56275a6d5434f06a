import LocalPost.Hosting.Lifetime

/-!
# The start of a composed service

`_compose_started` runs several services as one: it starts them, waits until each has set `started`,
sets its own `started` and waits until each has stopped. `HostRSGIApp` serves the composition and
opens its gate for requests when it has started or stopped.

A child that stops without having started leaves the composition waiting for an event that nobody
will set (`start_hangs`). The composition ends with its children exactly in the runs in which, when
the last child ends, every child has started or the composition has been cancelled
(`ends_with_children_iff`).
-/

set_option autoImplicit false

namespace LocalPost.Hosting

open LocalPost.Core

namespace ServiceLifetime

variable {ε : Type}

/-- A call that the loop executes with nothing in between. -/
def perform (lt : ServiceLifetime ε) (c : Call ε) : Except CallError (ServiceLifetime ε) :=
  (lt.body c).map fun ws => ws.foldl assign lt

/-- The lifetime after a call, whether it raises or not. -/
def after (lt : ServiceLifetime ε) (c : Call ε) : ServiceLifetime ε :=
  match lt.perform c with
  | .ok lt' => lt'
  | .error _ => lt

/-- The lifetime after the end of `_run`. -/
def complete (lt : ServiceLifetime ε) (o : Outcome ε) : ServiceLifetime ε :=
  (ending o).foldl assign lt

@[simp] theorem stopped_after (lt : ServiceLifetime ε) (c : Call ε) :
    (lt.after c).stopped = lt.stopped := by
  cases hstopped : lt.stopped <;> cases hdown : lt.shuttingDown <;> cases c <;>
    simp [after, perform, body, doSetStarted, doSetShuttingDown, doShutdown, assign, Except.map,
      hstopped, hdown]

theorem started_after {lt : ServiceLifetime ε} (h : lt.started = true) (c : Call ε) :
    (lt.after c).started = true := by
  cases hstopped : lt.stopped <;> cases hdown : lt.shuttingDown <;> cases c <;>
    simp [after, perform, body, doSetStarted, doSetShuttingDown, doShutdown, assign, Except.map,
      hstopped, hdown, h]

/-- `started` does not change any more once the service has stopped. -/
theorem started_after_of_stopped {lt : ServiceLifetime ε} (h : lt.stopped = true) (c : Call ε) :
    (lt.after c).started = lt.started := by
  cases hdown : lt.shuttingDown <;> cases c <;>
    simp [after, perform, body, doSetStarted, doSetShuttingDown, doShutdown, assign, Except.map,
      h, hdown]

theorem cancelCalled_after {lt : ServiceLifetime ε} (h : lt.cancelCalled = true) (c : Call ε) :
    (lt.after c).cancelCalled = true := by
  cases hstopped : lt.stopped <;> cases hdown : lt.shuttingDown <;> cases c <;>
    simp [after, perform, body, doSetStarted, doSetShuttingDown, doShutdown, assign, Except.map,
      hstopped, hdown, h]

@[simp] theorem stopped_complete (lt : ServiceLifetime ε) (o : Outcome ε) :
    (lt.complete o).stopped = true := by
  cases o <;> rfl

@[simp] theorem started_complete (lt : ServiceLifetime ε) (o : Outcome ε) :
    (lt.complete o).started = lt.started := by
  cases o <;> rfl

@[simp] theorem cancelCalled_complete (lt : ServiceLifetime ε) (o : Outcome ε) :
    (lt.complete o).cancelCalled = lt.cancelCalled := by
  cases o <;> rfl

end ServiceLifetime

/-- `_run` raises again what is not an `Exception`; the task group it runs in is cancelled then. -/
def Outcome.raises {ε : Type} : Outcome ε → Bool
  | .returned => false
  | .failed _ => false
  | .cancelled _ => true
  | .escaped _ => true

/-- Where the composition stands: before it has started its children, in the two `wait_all`, in the
exit of its task group, after its `_run`. -/
inductive Phase where
  | spawning
  | awaitingStarted
  | awaitingStopped
  | leaving
  | ended
  deriving DecidableEq, Repr

/-- Where `_lifecycle` stands: in the entry of `serve`, at the shutdown signal, in the exit of
`serve`, at its end. -/
inductive Lifecycle where
  | entering
  | serving
  | exiting
  | done
  deriving DecidableEq, Repr

/-- An application with `n` composed services. -/
structure HostApp (ε : Type) (n : Nat) where
  composite : ServiceLifetime ε
  children : Fin n → ServiceLifetime ε
  phase : Phase
  propagated : Bool
  lifecycle : Lifecycle
  ready : Bool
  shutdownSignal : Bool

/-- What the tasks of the composition and of the application do by themselves. -/
inductive Task (ε : Type) where
  | spawn
  | allStarted
  | allStopped
  | unwind
  | propagateShutdown
  | finish (o : Outcome ε)
  | entered
  | leaveServe
  | released

/-- What comes from outside: a child, or who holds its view, calls a method; a child ends; somebody
calls the view of the composition; `__rsgi_del__`. -/
inductive Input (ε : Type) (n : Nat) where
  | child (i : Fin n) (c : Call ε)
  | childEnds (i : Fin n) (o : Outcome ε)
  | shutdown (reason : Option (Reason ε))
  | stop
  | rsgiDel

/-- An action of the application. -/
inductive HostAction (ε : Type) (n : Nat) where
  | task (t : Task ε)
  | input (e : Input ε n)

namespace HostApp

variable {ε : Type} {n : Nat}

/-- Every child has set `started`. -/
def AllStarted (s : HostApp ε n) : Prop := ∀ i : Fin n, (s.children i).started = true

/-- Every child has stopped. -/
def AllStopped (s : HostApp ε n) : Prop := ∀ i : Fin n, (s.children i).stopped = true

instance (s : HostApp ε n) : Decidable s.AllStarted := inferInstanceAs (Decidable (∀ _, _))

instance (s : HostApp ε n) : Decidable s.AllStopped := inferInstanceAs (Decidable (∀ _, _))

/-- The tasks of `_compose_started` and `_lifecycle`. -/
def runTask (s : HostApp ε n) : Task ε → Option (HostApp ε n)
  | .spawn =>
    if s.phase = .spawning then
      some { s with
        children := fun _ => .fresh
        phase := if n = 0 then .awaitingStopped else .awaitingStarted }
    else none
  | .allStarted =>
    if s.phase = .awaitingStarted ∧ s.AllStarted then
      some { s with composite := s.composite.after .setStarted, phase := .awaitingStopped }
    else none
  | .allStopped =>
    -- the body returns and `_run` cancels what is left in the task group
    if s.phase = .awaitingStopped ∧ s.AllStopped then
      some { s with composite := s.composite.after .stop, phase := .leaving }
    else none
  | .unwind =>
    if (s.phase = .awaitingStarted ∨ s.phase = .awaitingStopped) ∧ s.composite.cancelCalled then
      some { s with phase := .leaving }
    else none
  | .propagateShutdown =>
    if (s.phase = .awaitingStarted ∨ s.phase = .awaitingStopped) ∧ s.composite.shuttingDown ∧
        ¬ s.propagated ∧ n ≠ 0 then
      some { s with
        children := fun i => (s.children i).after (.shutdown none)
        propagated := true }
    else none
  | .finish o =>
    -- the task group ends when all its tasks have
    if s.phase = .leaving ∧ s.AllStopped then
      some { s with composite := s.composite.complete o, phase := .ended }
    else none
  | .entered =>
    -- `_serve_root` waits for either event
    if s.lifecycle = .entering ∧ (s.composite.started ∨ s.composite.stopped) then
      some { s with lifecycle := .serving, ready := true }
    else none
  | .leaveServe =>
    if s.lifecycle = .serving ∧ s.shutdownSignal then
      some { s with
        composite := s.composite.after (.shutdown none)
        lifecycle := .exiting }
    else none
  | .released =>
    if s.lifecycle = .exiting ∧ s.composite.stopped then
      some { s with lifecycle := .done, ready := true }
    else none

/-- What an input does. A child that has stopped does not end again. -/
def input (s : HostApp ε n) : Input ε n → Option (HostApp ε n)
  | .child i c =>
    if s.phase = .spawning then none
    else some { s with children := Function.update s.children i ((s.children i).after c) }
  | .childEnds i o =>
    if s.phase = .spawning ∨ (s.children i).stopped then none
    else
      some { s with
        children := Function.update s.children i ((s.children i).complete o)
        composite := if o.raises then s.composite.after .stop else s.composite }
  | .shutdown reason => some { s with composite := s.composite.after (.shutdown reason) }
  | .stop => some { s with composite := s.composite.after .stop }
  | .rsgiDel => some { s with shutdownSignal := true }

/-- One step. -/
def step (s : HostApp ε n) : HostAction ε n → Option (HostApp ε n)
  | .task t => s.runTask t
  | .input e => s.input e

/-- `__rsgi_init__` has created the task of `_lifecycle`, and `serve` that of the composition. -/
def initial : HostApp ε n :=
  ⟨.fresh, fun _ => .fresh, .spawning, false, .entering, false, false⟩

/-- The application as a transition system. -/
def lts : Lts (HostApp ε n) (HostAction ε n) := ⟨(· = initial), step⟩

/-- No task can go on by itself. -/
def Quiescent (s : HostApp ε n) : Prop := ∀ t : Task ε, s.runTask t = none

/-- The hang: every child has stopped, nothing can go on, and the composition still waits for
`started`. -/
structure Hangs (s : HostApp ε n) : Prop where
  quiescent : s.Quiescent
  stopped : s.AllStopped
  waits : s.phase = .awaitingStarted

/-- How many steps the tasks can still take by themselves. -/
def rest (s : HostApp ε n) : Nat :=
  (match s.phase with
    | .spawning => 4
    | .awaitingStarted => 3
    | .awaitingStopped => 2
    | .leaving => 1
    | .ended => 0) +
  (if s.propagated then 0 else 1) +
  (match s.lifecycle with
    | .entering => 3
    | .serving => 2
    | .exiting => 1
    | .done => 0)

/-- Left to its tasks, the application comes to rest within `rest` steps, and if all children have
stopped then, the composition has stopped too and the gate for requests is open. -/
def EndsWithChildren (s : HostApp ε n) : Prop :=
  ∀ (ts : List (Task ε)) (t : HostApp ε n), lts.exec s (ts.map .task) = some t →
    ts.length ≤ s.rest ∧ (t.Quiescent → t.AllStopped → t.composite.stopped = true ∧ t.ready = true)

/-- The condition: when the last child ends, every child has started, unless the composition has
been cancelled, or is by what this child raises. -/
def StartedAtEnd (s : HostApp ε n) : HostAction ε n → Prop
  | .input (.childEnds i o) =>
    (∀ j : Fin n, j ≠ i → (s.children j).stopped = true) →
      s.AllStarted ∨ s.composite.cancelCalled = true ∨ o.raises = true
  | _ => True

instance (s : HostApp ε n) (a : HostAction ε n) : Decidable (StartedAtEnd s a) :=
  match a with
  | .input (.childEnds i o) =>
    inferInstanceAs (Decidable ((∀ j : Fin n, j ≠ i → (s.children j).stopped = true) →
      s.AllStarted ∨ s.composite.cancelCalled = true ∨ o.raises = true))
  | .input (.child _ _) => .isTrue trivial
  | .input (.shutdown _) => .isTrue trivial
  | .input .stop => .isTrue trivial
  | .input .rsgiDel => .isTrue trivial
  | .task _ => .isTrue trivial

/-! ## The invariant and the stuck states -/

/-- What the phase says of the rest of the state. -/
structure Inv (s : HostApp ε n) : Prop where
  waited : s.phase = .awaitingStopped → s.AllStarted
  cancelled : s.phase = .leaving ∨ s.phase = .ended → s.composite.cancelCalled = true
  stopped : s.composite.stopped = true ↔ s.phase = .ended
  entered : s.lifecycle = .entering ∨ s.ready = true

/-- Nobody will set the event that the composition waits for, and nobody has cancelled the wait. -/
structure Stuck (s : HostApp ε n) : Prop where
  waits : s.phase = .awaitingStarted
  stopped : s.AllStopped
  unstarted : ¬ s.AllStarted
  uncancelled : s.composite.cancelCalled = false

theorem inv_initial : Inv (initial : HostApp ε n) := by
  refine ⟨fun h => (by cases h), fun h => (by simp [initial] at h), ?_, .inl rfl⟩
  constructor
  · intro h
    cases h
  · intro h
    cases h

theorem allStarted_after {s : HostApp ε n} (h : s.AllStarted) (c : Call ε) (i : Fin n) :
    ((s.children i).after c).started = true :=
  ServiceLifetime.started_after (h i) c

theorem Inv.task {s t : HostApp ε n} (h : Inv s) {k : Task ε} (hstep : s.runTask k = some t) :
    Inv t := by
  cases k with
  | spawn =>
    simp only [runTask, Option.ite_none_right_eq_some, Option.some.injEq] at hstep
    obtain ⟨hphase, rfl⟩ := hstep
    have hstopped : s.composite.stopped ≠ true := by
      intro hs
      rw [h.stopped.1 hs] at hphase
      cases hphase
    by_cases hn : n = 0
    · -- without children all of them have started
      subst hn
      exact ⟨fun _ i => i.elim0, fun hp => (by simp at hp), by simp [hstopped], h.entered⟩
    · refine ⟨fun hp => ?_, fun hp => ?_, ?_, h.entered⟩
      · simp [hn] at hp
      · simp [hn] at hp
      · simp [hn, hstopped]
  | allStarted =>
    simp only [runTask, Option.ite_none_right_eq_some, Option.some.injEq] at hstep
    obtain ⟨⟨hphase, hstarted⟩, rfl⟩ := hstep
    refine ⟨fun _ => hstarted, fun hp => (by simp at hp), ?_, h.entered⟩
    simpa [hphase] using h.stopped
  | allStopped =>
    simp only [runTask, Option.ite_none_right_eq_some, Option.some.injEq] at hstep
    obtain ⟨⟨hphase, -⟩, rfl⟩ := hstep
    refine ⟨fun hp => (by cases hp), fun _ => rfl, ?_, h.entered⟩
    simpa [hphase] using h.stopped
  | unwind =>
    simp only [runTask, Option.ite_none_right_eq_some, Option.some.injEq] at hstep
    obtain ⟨⟨hphase, hcancel⟩, rfl⟩ := hstep
    refine ⟨fun hp => (by cases hp), fun _ => hcancel, ?_, h.entered⟩
    rcases hphase with hphase | hphase <;> simpa [hphase] using h.stopped
  -- A child that has started stays so when it is asked to shut down.
  | propagateShutdown =>
    simp only [runTask, Option.ite_none_right_eq_some, Option.some.injEq] at hstep
    obtain ⟨-, rfl⟩ := hstep
    exact ⟨fun hp i => allStarted_after (h.waited hp) _ i, h.cancelled, h.stopped, h.entered⟩
  | finish o =>
    simp only [runTask, Option.ite_none_right_eq_some, Option.some.injEq] at hstep
    obtain ⟨⟨hphase, -⟩, rfl⟩ := hstep
    refine ⟨fun hp => (by cases hp), fun _ => ?_, by simp, h.entered⟩
    simpa using h.cancelled (.inl hphase)
  | entered =>
    simp only [runTask, Option.ite_none_right_eq_some, Option.some.injEq] at hstep
    obtain ⟨-, rfl⟩ := hstep
    exact ⟨h.waited, h.cancelled, h.stopped, .inr rfl⟩
  -- What is cancelled stays so when `serve` is left.
  | leaveServe =>
    simp only [runTask, Option.ite_none_right_eq_some, Option.some.injEq] at hstep
    obtain ⟨⟨hserving, -⟩, rfl⟩ := hstep
    refine ⟨h.waited, fun hp => ServiceLifetime.cancelCalled_after (h.cancelled hp) _, ?_, ?_⟩
    · simpa using h.stopped
    · exact .inr (h.entered.resolve_left (by rw [hserving]; simp))
  | released =>
    simp only [runTask, Option.ite_none_right_eq_some, Option.some.injEq] at hstep
    obtain ⟨-, rfl⟩ := hstep
    exact ⟨h.waited, h.cancelled, h.stopped, .inr rfl⟩

/-- A call of one child's method. -/
theorem allStarted_update_after {s : HostApp ε n} (h : s.AllStarted) (i : Fin n) (c : Call ε) :
    ∀ j : Fin n, (Function.update s.children i ((s.children i).after c) j).started = true := by
  intro j
  by_cases hj : j = i
  · subst hj
    simpa using ServiceLifetime.started_after (h j) c
  · simpa [Function.update_of_ne hj] using h j

theorem started_update_complete (s : HostApp ε n) (i : Fin n) (o : Outcome ε) (j : Fin n) :
    (Function.update s.children i ((s.children i).complete o) j).started =
      (s.children j).started := by
  by_cases hj : j = i
  · subst hj
    simp
  · simp [Function.update_of_ne hj]

/-- The composition hears of a child's end in its scope only. -/
theorem composite_childEnds (lt : ServiceLifetime ε) (o : Outcome ε) :
    (if o.raises then lt.after .stop else lt).stopped = lt.stopped ∧
      ((if o.raises then lt.after .stop else lt).cancelCalled = true ↔
        lt.cancelCalled = true ∨ o.raises = true) := by
  cases hraises : o.raises with
  | true => exact ⟨ServiceLifetime.stopped_after lt .stop, fun _ => .inr rfl, fun _ => rfl⟩
  | false =>
    refine ⟨rfl, fun h => .inl h, fun h => ?_⟩
    simpa using h

theorem Inv.inputs {s t : HostApp ε n} (h : Inv s) {e : Input ε n} (hstep : s.input e = some t) :
    Inv t := by
  cases e with
  | child i c =>
    simp only [input] at hstep
    split at hstep
    -- a child that has not been spawned reports nothing
    · cases hstep
    · cases hstep
      exact ⟨fun hp => allStarted_update_after (h.waited hp) i c, h.cancelled, h.stopped, h.entered⟩
  | childEnds i o =>
    simp only [input] at hstep
    split at hstep
    · cases hstep
    · cases hstep
      obtain ⟨hstopped, hcancel⟩ := composite_childEnds s.composite o
      -- a child that raises cancels the scope of the composite, and stops nothing by itself
      refine ⟨fun hp j => ?_, fun hp => hcancel.2 (.inl (h.cancelled hp)), ?_, h.entered⟩
      · rw [started_update_complete]
        exact h.waited hp j
      · rw [hstopped]
        exact h.stopped
  | shutdown reason =>
    cases hstep
    -- a shutdown cancels at most, and the first cancellation stays
    refine ⟨h.waited, fun hp => ServiceLifetime.cancelCalled_after
      (h.cancelled hp) _, ?_, h.entered⟩
    simpa using h.stopped
  | stop =>
    cases hstep
    refine ⟨h.waited, fun hp => ServiceLifetime.cancelCalled_after
      (h.cancelled hp) _, ?_, h.entered⟩
    simpa using h.stopped
  | rsgiDel =>
    cases hstep
    exact ⟨h.waited, h.cancelled, h.stopped, h.entered⟩

theorem Inv.step {s : HostApp ε n} {a : HostAction ε n} {t : HostApp ε n} (h : Inv s)
    (hstep : lts.step s a = some t) : Inv t := by
  cases a with
  | task k => exact h.task hstep
  | input e => exact h.inputs hstep

/-! ## The tasks on their own -/

theorem rest_lt {s t : HostApp ε n} {k : Task ε} (h : s.runTask k = some t) : t.rest < s.rest := by
  cases k <;>
    simp only [runTask, Option.ite_none_right_eq_some, Option.some.injEq] at h <;>
    obtain ⟨hguard, rfl⟩ := h
  case spawn => by_cases hn : n = 0 <;> simp [rest, hguard, hn]
  case unwind => rcases hguard.1 with hphase | hphase <;> simp [rest, hphase]
  case propagateShutdown => simp [rest, hguard.2.2.1]
  all_goals simp [rest, hguard.1]

theorem allStopped_after_iff {s : HostApp ε n} (c : Call ε) :
    (∀ i : Fin n, ((s.children i).after c).stopped = true) ↔ s.AllStopped := by
  simp [AllStopped]

theorem allStarted_after_iff {s : HostApp ε n} (h : s.AllStopped) (c : Call ε) :
    (∀ i : Fin n, ((s.children i).after c).started = true) ↔ s.AllStarted := by
  constructor
  · intro hs i
    rw [← ServiceLifetime.started_after_of_stopped (h i) c]
    exact hs i
  · intro hs i
    exact allStarted_after hs c i

/-- The tasks neither cure nor cause a stuck state. -/
theorem stuck_task_iff {s t : HostApp ε n} {k : Task ε} (hstep : s.runTask k = some t) :
    Stuck t ↔ Stuck s := by
  cases k <;>
    simp only [runTask, Option.ite_none_right_eq_some, Option.some.injEq] at hstep <;>
    obtain ⟨hguard, rfl⟩ := hstep
  case spawn =>
    constructor
    · intro h
      by_cases hn : n = 0
      · exact absurd h.waits (by simp [hn])
      · exact absurd (h.stopped ⟨0, Nat.pos_of_ne_zero hn⟩) (by simp [ServiceLifetime.fresh])
    · intro h
      exact absurd (h.waits.symm.trans hguard) (by simp)
  case allStarted => exact ⟨fun h => absurd h.waits (by simp), fun h => absurd hguard.2 h.unstarted⟩
  case allStopped =>
    exact ⟨fun h =>
      absurd h.waits (by simp), fun h => absurd (h.waits.symm.trans hguard.1) (by simp)⟩
  case unwind =>
    exact ⟨fun h => absurd h.waits (by simp),
      fun h => absurd (h.uncancelled.symm.trans hguard.2) (by simp)⟩
  case propagateShutdown =>
    constructor
    · intro h
      have hstopped : s.AllStopped := (allStopped_after_iff _).1 h.stopped
      refine ⟨h.waits, hstopped, fun hs => h.unstarted ?_, h.uncancelled⟩
      exact (allStarted_after_iff hstopped _).2 hs
    · intro h
      refine ⟨h.waits, (allStopped_after_iff _).2 h.stopped,
        fun hs => h.unstarted ?_, h.uncancelled⟩
      exact (allStarted_after_iff h.stopped _).1 hs
  case finish o =>
    exact ⟨fun h =>
      absurd h.waits (by simp), fun h => absurd (h.waits.symm.trans hguard.1) (by simp)⟩
  case entered => exact ⟨fun h => ⟨h.1, h.2, h.3, h.4⟩, fun h => ⟨h.1, h.2, h.3, h.4⟩⟩
  case leaveServe =>
    -- a shutdown of the composition does not cancel its scope
    have hcancel : (s.composite.after (.shutdown none)).cancelCalled =
        s.composite.cancelCalled := by
      cases hstopped : s.composite.stopped <;> cases hdown : s.composite.shuttingDown <;>
        simp [ServiceLifetime.after, ServiceLifetime.perform, ServiceLifetime.body,
          ServiceLifetime.doShutdown, ServiceLifetime.assign, Except.map, hstopped, hdown]
    exact ⟨fun h => ⟨h.1, h.2, h.3, hcancel.symm.trans h.4⟩, fun h =>
      ⟨h.1, h.2, h.3, hcancel.trans h.4⟩⟩
  case released => exact ⟨fun h => ⟨h.1, h.2, h.3, h.4⟩, fun h => ⟨h.1, h.2, h.3, h.4⟩⟩

/-- What the tasks do is bounded, and they keep the invariant and what is stuck. -/
theorem run_tasks {s t : HostApp ε n} {ts : List (Task ε)} (hinv : Inv s)
    (hrun : lts.exec s (ts.map .task) = some t) :
    ts.length + t.rest ≤ s.rest ∧ Inv t ∧ (Stuck t ↔ Stuck s) := by
  induction ts generalizing s with
  | nil =>
    cases hrun
    exact ⟨by simp, hinv, Iff.rfl⟩
  | cons k ts ih =>
    obtain ⟨u, hu, hrest⟩ := (Lts.exec_cons lts).1 hrun
    have hstep : s.runTask k = some u := hu
    obtain ⟨hlen, hinvT, hstuck⟩ := ih (hinv.task hstep) hrest
    refine ⟨?_, hinvT, hstuck.trans (stuck_task_iff hstep)⟩
    have hlt := rest_lt hstep
    rw [List.length_cons]
    omega

/-- The tasks come to rest. -/
theorem exists_quiescent (s : HostApp ε n) :
    ∃ (ts : List (Task ε)) (t : HostApp ε n), lts.exec s (ts.map .task) = some t ∧ t.Quiescent := by
  induction hn : s.rest using Nat.strongRecOn generalizing s with
  | ind m ih =>
    by_cases hq : s.Quiescent
    · exact ⟨[], s, rfl, hq⟩
    · obtain ⟨k, hk⟩ := not_forall.1 hq
      obtain ⟨u, hu⟩ := Option.ne_none_iff_exists'.1 hk
      obtain ⟨ts, t, hrun, ht⟩ := ih u.rest (hn ▸ rest_lt hu) u rfl
      exact ⟨k :: ts, t, (Lts.exec_cons lts).2 ⟨u, hu, hrun⟩, ht⟩

/-- Where nothing can go on and every child has stopped, a composition that is not stuck has
stopped. -/
theorem over_of_quiescent {s : HostApp ε n} (hinv : Inv s) (hq : s.Quiescent) (hall : s.AllStopped)
    (hstuck : ¬ Stuck s) : s.composite.stopped = true ∧ s.ready = true := by
  have hover : s.composite.stopped = true := by
    rw [hinv.stopped]
    cases hphase : s.phase with
    | spawning => exact absurd (hq .spawn) (by simp [runTask, hphase])
    | awaitingStarted =>
      have hnot : ¬ s.AllStarted := fun h => absurd (hq .allStarted) (by simp [runTask, hphase, h])
      have hcancel : s.composite.cancelCalled = false := by
        cases hc : s.composite.cancelCalled with
        | false => rfl
        | true => exact absurd (hq .unwind) (by simp [runTask, hphase, hc])
      exact absurd ⟨hphase, hall, hnot, hcancel⟩ hstuck
    | awaitingStopped => exact absurd (hq .allStopped) (by simp [runTask, hphase, hall])
    | leaving => exact absurd (hq (.finish .returned)) (by simp [runTask, hphase, hall])
    | ended => rfl
  refine ⟨hover, hinv.entered.resolve_left fun hl => ?_⟩
  exact absurd (hq .entered) (by simp [runTask, hl, hover])

/-- The composition ends with its children unless it is stuck. -/
theorem endsWithChildren_iff {s : HostApp ε n} (hinv : Inv s) : EndsWithChildren s ↔ ¬ Stuck s := by
  constructor
  · intro hends hstuck
    obtain ⟨ts, t, hrun, hq⟩ := exists_quiescent s
    obtain ⟨-, hinvT, hiff⟩ := run_tasks hinv hrun
    have ht : Stuck t := hiff.2 hstuck
    have hover := hinvT.stopped.1 ((hends ts t hrun).2 hq ht.stopped).1
    exact absurd (ht.waits.symm.trans hover) (by simp)
  · intro hstuck ts t hrun
    obtain ⟨hlen, hinvT, hiff⟩ := run_tasks hinv hrun
    refine ⟨by omega, fun hq hall => ?_⟩
    exact over_of_quiescent hinvT hq hall fun ht => hstuck (hiff.1 ht)

theorem not_hangs {s : HostApp ε n} (hinv : Inv s) (h : EndsWithChildren s) : ¬ s.Hangs := by
  intro hhangs
  have hover := hinv.stopped.1 ((h [] s rfl).2 hhangs.quiescent hhangs.stopped).1
  exact absurd (hhangs.waits.symm.trans hover) (by simp)

/-! ## Inputs -/

/-- The end of a child leaves the composition stuck exactly against the condition. -/
theorem stuck_childEnds_iff {s : HostApp ε n} {i : Fin n} {o : Outcome ε} (hinv : Inv s)
    (hphase : s.phase ≠ .spawning) :
    ¬ Stuck { s with
        children := Function.update s.children i ((s.children i).complete o)
        composite := if o.raises then s.composite.after .stop else s.composite } ↔
      StartedAtEnd s (.input (.childEnds i o)) := by
  obtain ⟨-, hcancel⟩ := composite_childEnds s.composite o
  constructor
  · intro hstuck hothers
    by_contra hnot
    obtain ⟨hstarted, huncancelled, hraises⟩ : ¬ s.AllStarted ∧
        ¬ s.composite.cancelCalled = true ∧ ¬ o.raises = true := by
      simpa only [not_or] using hnot
    apply hstuck
    -- against the condition, every part of `Stuck` holds behind the end of the last child
    refine ⟨?_, fun j => ?_, fun h => hstarted fun j => ?_, ?_⟩
    · cases hp : s.phase with
      | spawning => exact absurd hp hphase
      | awaitingStarted => rfl
      | awaitingStopped => exact absurd (hinv.waited hp) hstarted
      | leaving => exact absurd (hinv.cancelled (.inl hp)) huncancelled
      | ended => exact absurd (hinv.cancelled (.inr hp)) huncancelled
    · by_cases hj : j = i
      · subst hj
        simp
      · simpa [Function.update_of_ne hj] using hothers j hj
    · rw [← started_update_complete s i o j]
      exact h j
    · rw [← Bool.not_eq_true, hcancel]
      exact fun h => h.elim huncancelled hraises
  · intro hcond hstuck
    have hothers : ∀ j : Fin n, j ≠ i → (s.children j).stopped = true := by
      intro j hj
      simpa [Function.update_of_ne hj] using hstuck.stopped j
    have hnot := hstuck.uncancelled
    rw [← Bool.not_eq_true, hcancel] at hnot
    -- each case of the condition is against one part of `Stuck`
    rcases hcond hothers with hstarted | hcancelled | hraises
    · apply hstuck.unstarted
      intro j
      exact (started_update_complete s i o j).trans (hstarted j)
    · exact hnot (.inl hcancelled)
    · exact hnot (.inr hraises)

/-- A method call on a child does not leave the composition stuck. -/
theorem Stuck.of_child {s : HostApp ε n} {i : Fin n} {c : Call ε}
    (h : Stuck { s with children := Function.update s.children i ((s.children i).after c) }) :
    Stuck s := by
  refine ⟨h.waits, fun j => ?_, fun hs => h.unstarted
    (allStarted_update_after hs i c), h.uncancelled⟩
  have hj := h.stopped j
  by_cases heq : j = i
  · subst heq
    simpa using hj
  · simpa [Function.update_of_ne heq] using hj

/-- Nor does a call on the view of the composition. -/
theorem Stuck.of_composite {s : HostApp ε n} {c : Call ε}
    (h : Stuck { s with composite := s.composite.after c }) : Stuck s := by
  refine ⟨h.waits, h.stopped, h.unstarted, ?_⟩
  cases hc : s.composite.cancelCalled with
  | false => rfl
  | true =>
    have hafter := ServiceLifetime.cancelCalled_after hc c
    exact hafter.symm.trans h.uncancelled

/-- One step, from a state that is not stuck. -/
theorem stuck_step_iff {s : HostApp ε n} {a : HostAction ε n} {t : HostApp ε n} (hinv : Inv s)
    (hstuck : ¬ Stuck s) (hstep : lts.step s a = some t) : ¬ Stuck t ↔ StartedAtEnd s a := by
  -- every step but the end of a child keeps a stuck start where it is
  have hfree : (Stuck t → Stuck s) → StartedAtEnd s a → (¬ Stuck t ↔ StartedAtEnd s a) :=
    fun hts ha => ⟨fun _ => ha, fun _ ht => hstuck (hts ht)⟩
  cases a with
  | task k => exact hfree (stuck_task_iff hstep).1 trivial
  | input e =>
    have hinput : s.input e = some t := hstep
    cases e with
    | child i c =>
      simp only [input] at hinput
      split at hinput
      · cases hinput
      · cases hinput
        exact hfree Stuck.of_child trivial
    | childEnds i o =>
      simp only [input] at hinput
      split at hinput
      · cases hinput
      · rename_i hguard
        cases hinput
        -- the end of a child can make the wait for `started` endless: the condition is about it
        exact stuck_childEnds_iff hinv fun hp => hguard (.inl hp)
    | shutdown reason =>
      cases hinput
      exact hfree Stuck.of_composite trivial
    | stop =>
      cases hinput
      exact hfree Stuck.of_composite trivial
    | rsgiDel =>
      cases hinput
      exact hfree (fun h => ⟨h.1, h.2, h.3, h.4⟩) trivial

/-- In a run, the composition ends with its children from every state that is reached, and no state
is a hang, exactly when the last child ends only after every child has started, or with the
composition cancelled. -/
theorem ends_with_children_iff {as : List (HostAction ε n)} {s : HostApp ε n}
    (hrun : lts.exec initial as = some s) :
    lts.Throughout (fun t => EndsWithChildren t ∧ ¬ t.Hangs) initial as ↔
      lts.Meets StartedAtEnd initial as := by
  have hiff : ∀ t : HostApp ε n, Inv t → ((EndsWithChildren t ∧ ¬ t.Hangs) ↔ ¬ Stuck t) := by
    intro t ht
    rw [← endsWithChildren_iff ht]
    exact ⟨fun h => h.1, fun h => ⟨h, not_hangs ht h⟩⟩
  refine Lts.throughout_iff_meets (M := lts) (I := Inv) (fun _ _ _ h hs => h.step hs) ?_
    inv_initial ?_ hrun
  · intro u a v hu hends hstep
    rw [hiff v (hu.step hstep)]
    exact stuck_step_iff hu ((hiff u hu).1 hends) hstep
  · rw [hiff _ inv_initial]
    intro hstuck
    cases hstuck.waits

/-- Two services: the first starts, the second fails while it starts, the first ends. -/
def failedStart : List (HostAction Nat 2) :=
  [.task .spawn, .input (.child 0 .setStarted), .input (.childEnds 1 (.failed (.single 7))),
    .input (.childEnds 0 .returned)]

/-- The composition waits for an event that nobody will set, and the gate for requests stays
closed. -/
theorem start_hangs :
    ∃ s : HostApp Nat 2, lts.exec initial failedStart = some s ∧ s.Hangs ∧ s.ready = false ∧
      s.composite.stopped = false := by
  refine ⟨_, rfl, ⟨?_, ?_, rfl⟩, rfl, rfl⟩
  · intro k
    cases k <;> rfl
  · decide

/-- Both services start, the host asks for the shutdown, both end. -/
def properStart : List (HostAction Nat 2) :=
  [.task .spawn, .input (.child 0 .setStarted), .input (.child 1 .setStarted), .task .allStarted,
    .task .entered, .input .rsgiDel, .task .leaveServe, .task .propagateShutdown,
    .input (.childEnds 1 .returned), .input (.childEnds 0 (.failed (.single 7))), .task .allStopped,
    .task (.finish .returned), .task .released]

theorem ends_with_children_iff_properStart :
    lts.Throughout (fun t => EndsWithChildren t ∧ ¬ t.Hangs) initial properStart := by
  apply (ends_with_children_iff rfl).2
  decide

end HostApp

end LocalPost.Hosting
