import LocalPost.Threadtools.Executor.Settled

/-!
# AsyncWorkerExecutor with its host tasks

`AsyncWorkerExecutor` runs the workers of `WorkerExecutor` in threads that tasks of its own task
group host. A host task is scheduled by `submit`; it comes to the start of its thread later, and
ends there instead when the scope of the task group, or one around it, has been cancelled by then
(`Host.dropped`). A thread that has been started is not stopped by the cancellation. `__aexit__`
closes the pool and waits for the host tasks.

The task that a dropped host was spawned for stays in the queue (`stranded`). When another worker is
left that will look at the queue, or the queue is empty, nothing is lost: under this condition
(`attended`) every future is done when the block has been left.

`start_soon` succeeds while the executor is open.
-/

set_option autoImplicit false

namespace LocalPost.Threadtools.Executor

open LocalPost.Core

/-- A host task: not at the start of its thread yet, with the thread started, cancelled before
that. -/
inductive Host where
  | scheduled
  | hosting
  | dropped
  deriving DecidableEq, Repr

/-- An `AsyncWorkerExecutor`: the pool with its tasks, whose `exits` are not used, the host task of
each worker, the cancellation of the scope, the calls of `stop` that are about to cancel it, and the
call of `__aexit__`, which closes the pool first and then waits. -/
structure AsyncWorkerExecutor where
  executor : WorkerExecutor
  hosts : List Host
  cancelled : Bool
  cancelling : Nat
  exiting : Bool
  left : Bool

/-- One step: `__aenter__`, `submit`, `stop` up to the cancellation and that, a cancellation of a
scope around the task group, the `cancel` of a future, `__aexit__` up to the wait (the block may
have raised) and its end; a host task comes to the start of its thread, a worker's next critical
section, the beginning and the end of its task. -/
inductive AsyncExecutorAct where
  | aenter
  | submit
  | stop
  | cancelScope
  | cancelAround
  | cancel (i : Nat)
  | aexit (raised : Bool)
  | leave
  | host (w : Nat)
  | loop (w : Nat)
  | begin (w : Nat)
  | finish (w : Nat) (raised : Bool)
  deriving DecidableEq, Repr

namespace AsyncWorkerExecutor

/-- An executor that has not been entered. -/
def start : AsyncWorkerExecutor := ⟨.start, [], false, 0, false, false⟩

/-- The executor after a step of the pool or of its tasks. -/
def stepExecutor (s : AsyncWorkerExecutor) (a : ExecutorAct) : Option AsyncWorkerExecutor :=
  (s.executor.step a).map fun e => { s with executor := e }

/-- `submit`: a new worker gets a host task. -/
def submit (s : AsyncWorkerExecutor) : Option AsyncWorkerExecutor :=
  (s.executor.step .submit).map fun e =>
    { s with
      executor := e
      hosts := s.hosts ++ List.replicate
        (e.pool.workers.length - s.executor.pool.workers.length) .scheduled }

/-- `stop` up to the cancellation, which the call makes that has closed the pool. -/
def stop (s : AsyncWorkerExecutor) : Option AsyncWorkerExecutor :=
  let first := s.executor.pool.st.opened && !s.executor.pool.st.closed
  (s.executor.step .stop).map fun e =>
    { s with executor := e, cancelling := if first then s.cancelling + 1 else s.cancelling }

/-- `__aexit__` up to the wait. The task group cancels its scope when the block has raised. -/
def aexit (s : AsyncWorkerExecutor) (raised : Bool) : Option AsyncWorkerExecutor :=
  if s.executor.pool.st.opened && !s.exiting then
    (s.executor.stepPool .exit).map fun e =>
      { s with executor := e, exiting := true, cancelled := s.cancelled || raised }
  else none

/-- The host task of worker `w` has ended. -/
def ended (s : AsyncWorkerExecutor) (w : Nat) : Bool :=
  match s.hosts[w]?, s.executor.pool.workers[w]? with
  | some .dropped, _ => true
  | some .hosting, some .exited => true
  | _, _ => false

/-- The task group has no task left. -/
def leave (s : AsyncWorkerExecutor) : Option AsyncWorkerExecutor :=
  if s.exiting && !s.left && (List.range s.hosts.length).all s.ended then
    some { s with left := true }
  else none

/-- The host task of worker `w` comes to the start of its thread. -/
def host (s : AsyncWorkerExecutor) (w : Nat) : Option AsyncWorkerExecutor :=
  if s.hosts[w]? = some .scheduled then
    some { s with hosts := s.hosts.set w (if s.cancelled then .dropped else .hosting) }
  else none

/-- Worker `w` runs its next critical section. -/
def loop (s : AsyncWorkerExecutor) (w : Nat) : Option AsyncWorkerExecutor :=
  if s.hosts[w]? = some .hosting then s.stepExecutor (.loop w) else none

/-- One step of the executor. -/
def step (s : AsyncWorkerExecutor) : AsyncExecutorAct → Option AsyncWorkerExecutor
  | .aenter => s.stepExecutor .enter
  | .submit => s.submit
  | .stop => s.stop
  | .cancelScope =>
    if 0 < s.cancelling then
      some { s with cancelled := true, cancelling := s.cancelling - 1 } else none
  | .cancelAround => some { s with cancelled := true }
  | .cancel i => s.stepExecutor (.cancel i)
  | .aexit raised => s.aexit raised
  | .leave => s.leave
  | .host w => s.host w
  | .loop w => s.loop w
  | .begin w => s.stepExecutor (.begin w)
  | .finish w raised => s.stepExecutor (.finish w raised)

/-- Worker `w` has a host task that was not dropped, and has not exited. -/
def isLive (s : AsyncWorkerExecutor) (w : Nat) : Bool :=
  match s.hosts[w]?, s.executor.pool.workers[w]? with
  | some h, some a => decide (h ≠ .dropped) && decide (a ≠ .exited)
  | _, _ => false

/-- The condition on a step: when a host task is cancelled before its thread has started, the queue
is empty or another worker is left. -/
def attended (s : AsyncWorkerExecutor) : AsyncExecutorAct → Bool
  | .host w => !s.cancelled || s.executor.pool.st.queue.isEmpty ||
      (List.range s.hosts.length).any fun u => decide (u ≠ w) && s.isLive u
  | _ => true

/-- When the block has been left, no task is in the queue and every future is done. -/
def LeavesNothing (s : AsyncWorkerExecutor) : Prop :=
  s.left = true → s.executor.pool.st.queue = [] ∧ ∀ t ∈ s.executor.tasks, t.future.done = true

end AsyncWorkerExecutor

/-- An `AsyncWorkerExecutor` with any number of callers. -/
def asyncExecutor : Lts AsyncWorkerExecutor AsyncExecutorAct where
  init s := s = .start
  step := AsyncWorkerExecutor.step

/-! ## The steps of the workers -/

namespace WorkerExecutor.Ok

variable {s s' : WorkerExecutor} {w : Nat}

/-- A step of a worker changes that worker only, and takes from the queue; it exits from an empty
one. -/
theorem worker_cases (hi : s.Ok) {a : ExecutorAct} (ha : a.worker = some w)
    (h : s.step a = some s') :
    ∃ x y : Worker Nat, s.pool.workers[w]? = some x ∧ x ≠ .exited ∧ s'.pool.workers =
      s.pool.workers.set w y ∧
      s'.pool.st.closed = s.pool.st.closed ∧ (s'.pool.st.queue ≠ [] → s.pool.st.queue ≠ []) ∧
      (y = .exited → s'.pool.st.queue = []) := by
  cases a with
  | loop v =>
    cases ha
    obtain ⟨p, hp, rfl⟩ := Option.map_eq_some_iff.1 h
    obtain ⟨x, hx, hfree, -, hclosed, hcases⟩ := loop_cases hp
    have hlive : x ≠ .exited := by
      rintro rfl
      cases hfree
    -- a worker takes a task, or leaves an empty queue
    have hkept : ∃ y : Worker Nat, p.workers = s.pool.workers.set w y ∧
        (p.st.queue ≠ [] → s.pool.st.queue ≠ []) ∧ (y = .exited → p.st.queue = []) := by
      rcases hcases with ⟨task, rest, hq, hq', -, hworkers⟩ | ⟨hq, hq', -, -, hworkers⟩ |
        ⟨hq, hq', -, hworkers⟩
      · refine ⟨_, hworkers, fun _ => ?_, fun hy => (by cases hy)⟩
        rw [hq]
        exact List.cons_ne_nil _ _
      · exact ⟨_, hworkers, fun hne => absurd hq' hne, fun _ => hq'⟩
      · exact ⟨_, hworkers, fun hne => absurd hq' hne, fun _ => hq'⟩
    obtain ⟨y, hworkers, hqueue, hexit⟩ := hkept
    refine ⟨x, y, hx, hlive, ?_⟩
    split
    · exact ⟨hworkers, hclosed, hqueue, hexit⟩
    · exact ⟨hworkers, hclosed, hqueue, hexit⟩
  -- `begin` and `finish` touch the tasks, and bring the worker back to its loop
  | begin v =>
    cases ha
    obtain ⟨i, t, hw, -, hcases, -⟩ := hi.begin_cases h
    rcases hcases with ⟨-, rfl⟩ | ⟨-, rfl⟩
    · refine ⟨_, .running i, hw, (by simp), ?_, rfl, id, fun hy => (by cases hy)⟩
      obtain ⟨hlt, hget⟩ := List.getElem?_eq_some_iff.1 hw
      rw [← hget, List.set_getElem_self]
    · exact ⟨_, .top, hw, (by simp), rfl, rfl, id, fun hy => (by cases hy)⟩
  | finish v raised =>
    cases ha
    obtain ⟨i, t, hw, -, -, rfl⟩ := hi.finish_cases h
    exact ⟨_, .top, hw, (by simp), rfl, rfl, id, fun hy => (by cases hy)⟩
  | _ => cases ha

end WorkerExecutor.Ok

namespace AsyncWorkerExecutor

variable {s s' : AsyncWorkerExecutor} {w : Nat}

/-! ## The invariant -/

/-- What every run keeps: each worker has a host task, a worker without a thread has not moved, and
when the block has been left the pool is closed and every host task has ended. -/
structure Hosted (s : AsyncWorkerExecutor) : Prop where
  ok : s.executor.Ok
  length : s.hosts.length = s.executor.pool.workers.length
  resting : ∀ (w : Nat) (h : Host), s.hosts[w]? = some h → h ≠ .hosting →
    s.executor.pool.workers[w]? = some .top
  exiting : s.exiting = true → s.executor.pool.st.closed = true
  left : s.left = true → s.exiting = true ∧ ∀ w < s.hosts.length, s.ended w = true

/-- Some worker is left for the queue. -/
def Watched (s : AsyncWorkerExecutor) : Prop := s.executor.pool.st.queue ≠ [] →
    ∃ w, s.isLive w = true

/-- A host task is live exactly if it was not dropped and its worker has not left. -/
theorem isLive_iff : s.isLive w = true ↔
    ∃ h a, s.hosts[w]? = some h ∧ s.executor.pool.workers[w]? = some a ∧
      h ≠ .dropped ∧ a ≠ .exited := by
  rw [isLive]
  split
  · rename_i h a hh ha
    rw [Bool.and_eq_true_iff, decide_eq_true_iff, decide_eq_true_iff]
    constructor
    · rintro ⟨h1, h2⟩
      exact ⟨h, a, hh, ha, h1, h2⟩
    · rintro ⟨h', a', hh', ha', h1, h2⟩
      cases hh.symm.trans hh'
      cases ha.symm.trans ha'
      exact ⟨h1, h2⟩
  · rename_i hnone
    constructor
    · intro h
      cases h
    · rintro ⟨h, a, hh, ha, -, -⟩
      exact absurd ha (hnone h a hh)

/-- A host task has ended exactly if it was dropped or its worker has left. -/
theorem ended_iff : s.ended w = true ↔ s.hosts[w]? = some .dropped ∨
    s.hosts[w]? = some .hosting ∧ s.executor.pool.workers[w]? = some .exited := by
  rw [ended]
  split
  · rename_i hdropped
    exact ⟨fun _ => .inl hdropped, fun _ => rfl⟩
  · rename_i hhosting hexited
    exact ⟨fun _ => .inr ⟨hhosting, hexited⟩, fun _ => rfl⟩
  · rename_i hdropped hhosting
    constructor
    · intro h
      cases h
    · rintro (h | ⟨h, h'⟩)
      · exact absurd h hdropped
      · exact absurd h' (hhosting h)

theorem not_live_of_ended (h : s.ended w = true) : s.isLive w ≠ true := by
  intro hlive
  obtain ⟨g, a, hg, ha, hdropped, hexited⟩ := isLive_iff.1 hlive
  rcases ended_iff.1 h with hw | ⟨-, hw⟩
  · cases hg.symm.trans hw
    exact hdropped rfl
  · cases ha.symm.trans hw
    exact hexited rfl

namespace Hosted

theorem start : Hosted .start :=
  ⟨.start, rfl, fun w h hw => (by cases hw), fun h => (by cases h), fun h => (by cases h)⟩

/-- A worker that has moved is hosted. -/
theorem hosting (hi : Hosted s) {a : Worker Nat} (hw : s.executor.pool.workers[w]? = some a)
    (ha : a ≠ .top) : s.hosts[w]? = some .hosting := by
  have hlt : w < s.hosts.length := hi.length ▸ (List.getElem?_eq_some_iff.1 hw).1
  have hget := List.getElem?_eq_getElem hlt
  by_cases hhost : s.hosts[w] = .hosting
  · rw [hget, hhost]
  · cases hw.symm.trans (hi.resting w _ hget hhost)
    exact absurd rfl ha

/-- A step that touches neither the hosts nor the workers. -/
theorem steady (hi : Hosted s) (hok : s'.executor.Ok) (hhosts : s'.hosts = s.hosts)
    (hworkers : s'.executor.pool.workers = s.executor.pool.workers)
    (hexiting : s'.exiting = true → s'.executor.pool.st.closed = true)
    (hleft : s'.left = true → s'.exiting = true ∧ ∀ w < s.hosts.length, s.ended w = true) :
    Hosted s' := by
  refine ⟨hok, ?_, ?_, hexiting, fun h => ?_⟩
  · rw [hhosts, hworkers]
    exact hi.length
  · rw [hhosts, hworkers]
    exact hi.resting
  · obtain ⟨hex, hall⟩ := hleft h
    refine ⟨hex, fun w hw => ?_⟩
    rw [hhosts] at hw
    have hended := hall w hw
    rw [ended] at hended ⊢
    rw [hhosts, hworkers]
    exact hended

/-- A step of the callers' that closes nothing or the pool. -/
theorem callers (hi : Hosted s) {a : Act Nat} (ha : a = .enter ∨ a = .stop ∨ a = .exit)
    {e : WorkerExecutor}
    (h : s.executor.stepPool a = some e) : e.Ok ∧ e.pool.workers = s.executor.pool.workers ∧
      e.pool.st.queue = s.executor.pool.st.queue ∧
      (s.executor.pool.st.closed = true ∨ a = .exit → e.pool.st.closed = true) := by
  obtain ⟨p, hp, rfl⟩ := Option.map_eq_some_iff.1 h
  obtain ⟨hq, hw, hclosed, hexit, -, -⟩ := WorkerExecutor.callers_cases ha hp
  refine ⟨hi.ok.callers ha (fun call hc => .inl hc) hp, hw, hq, ?_⟩
  rintro (hc | rfl)
  · exact hclosed hc
  · exact hexit rfl

/-- A hosted worker takes a step. -/
theorem worker (hi : Hosted s) {a : ExecutorAct} (ha : a.worker = some w)
    (hw : s.hosts[w]? = some .hosting)
    {e : WorkerExecutor} (h : s.executor.step a = some e) : Hosted { s with executor := e } := by
  obtain ⟨x, y, hx, hexited, hworkers, hclosed, -, -⟩ := hi.ok.worker_cases ha h
  refine ⟨hi.ok.step h, ?_, fun v g hv hg => ?_, fun hex => ?_, fun hleft => ?_⟩
  · rw [hworkers, List.length_set]
    exact hi.length
  · have hne : w ≠ v := by
      rintro rfl
      cases hw.symm.trans hv
      exact hg rfl
    rw [hworkers, List.getElem?_set_ne hne]
    exact hi.resting v g hv hg
  · rw [hclosed]
    exact hi.exiting hex
  · -- when the block has been left no worker has a step
    have hended := (hi.left hleft).2 w (List.getElem?_eq_some_iff.1 hw).1
    rcases ended_iff.1 hended with hdropped | ⟨-, hout⟩
    · cases hw.symm.trans hdropped
    · cases hx.symm.trans hout
      exact absurd rfl hexited

/-- A submission keeps the host tasks in line with the workers. -/
theorem submit (hi : Hosted s) (h : s.submit = some s') : Hosted s' := by
  obtain ⟨e, he, rfl⟩ := Option.map_eq_some_iff.1 h
  rcases WorkerExecutor.submit_cases he with rfl | ⟨-, hclosed, p, -, rfl, -, hclosed', hworkers⟩
  -- the submit has made no worker
  · rw [Nat.sub_self, List.replicate_zero, List.append_nil]
    exact hi
  · -- the pool is open, so nobody is leaving
    have hopen : s.exiting ≠ true := fun hex => by
      rw [hi.exiting hex] at hclosed
      cases hclosed
    -- one more worker, whose host is scheduled, or none
    rcases hworkers with hworkers | ⟨hworkers, -⟩
    · have hone : p.workers.length - s.executor.pool.workers.length = 1 := by
        rw [hworkers, List.length_append, List.length_singleton]
        omega
      refine ⟨hi.ok.step he, ?_, fun v g hv hg => ?_, fun hex => absurd hex hopen,
        fun hleft => absurd (hi.left hleft).1 hopen⟩
      · rw [hone, List.length_append, hi.length, hworkers, List.length_append]
        rfl
      · change (s.hosts ++ List.replicate (p.workers.length - _) Host.scheduled)[v]? = some g at hv
        rw [hone] at hv
        change p.workers[v]? = _
        rw [hworkers]
        rcases getElem?_concat_iff.1 hv with hv | ⟨rfl, -⟩
        · exact getElem?_concat_iff.2 (.inl (hi.resting v g hv hg))
        · exact getElem?_concat_iff.2 (.inr ⟨hi.length, rfl⟩)
    · have hnone : p.workers.length - s.executor.pool.workers.length =
        0 := by rw [hworkers, Nat.sub_self]
      refine hi.steady (hi.ok.step he) ?_ hworkers (fun hex => absurd hex hopen)
        fun hleft => absurd (hi.left hleft).1 hopen
      change s.hosts ++ List.replicate (p.workers.length - _) Host.scheduled = _
      rw [hnone, List.replicate_zero, List.append_nil]

/-- A host task comes to the start of its thread. -/
theorem host (hi : Hosted s) (h : s.host w = some s') : Hosted s' := by
  rw [AsyncWorkerExecutor.host] at h
  split at h
  · rename_i hw
    cases h
    refine ⟨hi.ok, ?_, fun v g hv hg => ?_, hi.exiting, fun hleft => ?_⟩
    · rw [List.length_set]
      exact hi.length
    · rw [getElem?_set_iff hw] at hv
      split at hv
      · rename_i heq
        subst heq
        exact hi.resting w _ hw (by simp)
      · exact hi.resting v g hv hg
    · -- all host tasks would have ended
      have hended := (hi.left hleft).2 w (List.getElem?_eq_some_iff.1 hw).1
      rcases ended_iff.1 hended with hdropped | ⟨hhosting, -⟩
      · cases hw.symm.trans hdropped
      · cases hw.symm.trans hhosting
  · cases h

/-- Every step keeps the host tasks in line with the workers. -/
theorem step (hi : Hosted s) {a : AsyncExecutorAct} (h : s.step a = some s') : Hosted s' := by
  cases a with
  | aenter =>
    obtain ⟨e, he, rfl⟩ := Option.map_eq_some_iff.1 h
    obtain ⟨hok, hworkers, -, hclosed⟩ := hi.callers (.inl rfl) he
    exact hi.steady hok rfl hworkers (fun hex => hclosed (.inl (hi.exiting hex))) hi.left
  | submit => exact hi.submit h
  | stop =>
    rw [AsyncWorkerExecutor.step, AsyncWorkerExecutor.stop] at h
    obtain ⟨e, he, rfl⟩ := Option.map_eq_some_iff.1 h
    obtain ⟨hok, hworkers, -, hclosed⟩ := hi.callers (.inr (.inl rfl)) he
    exact hi.steady hok rfl hworkers (fun hex => hclosed (.inl (hi.exiting hex))) hi.left
  -- A cancel scope changes no task and no worker.
  | cancelScope =>
    rw [AsyncWorkerExecutor.step] at h
    split at h
    · cases h
      exact hi.steady hi.ok rfl rfl hi.exiting hi.left
    · cases h
  | cancelAround =>
    cases h
    exact hi.steady hi.ok rfl rfl hi.exiting hi.left
  | cancel i =>
    rw [AsyncWorkerExecutor.step, stepExecutor] at h
    obtain ⟨e, he, rfl⟩ := Option.map_eq_some_iff.1 h
    have hok := hi.ok.step he
    cases he
    exact hi.steady hok rfl rfl hi.exiting hi.left
  | aexit raised =>
    rw [AsyncWorkerExecutor.step, aexit] at h
    split at h
    · rename_i hguard
      obtain ⟨e, he, rfl⟩ := Option.map_eq_some_iff.1 h
      obtain ⟨hok, hworkers, -, hclosed⟩ := hi.callers (.inr (.inr rfl)) he
      exact hi.steady hok rfl hworkers (fun _ => hclosed (.inr rfl)) fun hleft =>
        ⟨rfl, (hi.left hleft).2⟩
    · cases h
  -- The group is left when every worker is done.
  | leave =>
    rw [AsyncWorkerExecutor.step, leave] at h
    split at h
    · rename_i hguard
      cases h
      obtain ⟨hex, hall⟩ := Bool.and_eq_true_iff.1 hguard
      have hexiting : s.exiting = true := (Bool.and_eq_true_iff.1 hex).1
      refine hi.steady hi.ok rfl rfl hi.exiting fun _ => ⟨hexiting, fun w hw => ?_⟩
      exact List.all_eq_true.1 hall w (List.mem_range.2 hw)
    · cases h
  | host w => exact hi.host h
  | loop w =>
    rw [AsyncWorkerExecutor.step, loop] at h
    split at h
    · rename_i hw
      obtain ⟨e, he, rfl⟩ := Option.map_eq_some_iff.1 h
      exact hi.worker rfl hw he
    · cases h
  -- A worker that runs a task is hosted.
  | begin w =>
    obtain ⟨e, he, rfl⟩ := Option.map_eq_some_iff.1 h
    obtain ⟨i, t, hw, -⟩ := hi.ok.begin_cases he
    exact hi.worker rfl (hi.hosting hw (by simp)) he
  | finish w raised =>
    obtain ⟨e, he, rfl⟩ := Option.map_eq_some_iff.1 h
    obtain ⟨i, t, hw, -⟩ := hi.ok.finish_cases he
    exact hi.worker rfl (hi.hosting hw (by simp)) he

end Hosted

/-! ## The queue is watched -/

namespace Watched

/-- The queue, the hosts and the workers stay. -/
theorem steady (h : Watched s) (hqueue : s'.executor.pool.st.queue = s.executor.pool.st.queue)
    (hhosts : s'.hosts = s.hosts) (hworkers : s'.executor.pool.workers = s.executor.pool.workers) :
    Watched s' := by
  intro hne
  rw [hqueue] at hne
  obtain ⟨w, hlive⟩ := h hne
  refine ⟨w, ?_⟩
  rw [isLive] at hlive ⊢
  rw [hhosts, hworkers]
  exact hlive

/-- A submission leaves a worker for the queue. -/
theorem submit (hi : Hosted s) (h : Watched s) (hstep : s.submit = some s') : Watched s' := by
  obtain ⟨e, he, rfl⟩ := Option.map_eq_some_iff.1 hstep
  rcases WorkerExecutor.submit_cases he with rfl | ⟨-, -, p, -, rfl, -, -, hworkers⟩
  · rw [Nat.sub_self, List.replicate_zero, List.append_nil]
    exact h
  · intro _
    -- the new task has a live worker: the new one, or one that sleeps
    rcases hworkers with hworkers | ⟨hworkers, hidle⟩
    · -- the new worker
      refine ⟨s.hosts.length, isLive_iff.2 ⟨.scheduled, .top, ?_, ?_, (by simp), (by simp)⟩⟩
      · have hone : p.workers.length - s.executor.pool.workers.length = 1 := by
          rw [hworkers, List.length_append, List.length_singleton]
          omega
        change (s.hosts ++ List.replicate (p.workers.length - _)
          Host.scheduled)[s.hosts.length]? = _
        rw [hone]
        exact getElem?_concat_iff.2 (.inr ⟨rfl, rfl⟩)
      · change p.workers[s.hosts.length]? = _
        rw [hworkers]
        exact getElem?_concat_iff.2 (.inr ⟨hi.length, rfl⟩)
    · -- an idle one
      -- the submit has found somebody idle, and the idle ones are those that sleep
      have hpos : 0 < s.executor.pool.workers.countP Worker.isWaiting := by
        have hcount := hi.ok.pool.idle_eq
        rw [Pool.sleepers] at hcount
        omega
      obtain ⟨a, ha, hwaits⟩ := List.countP_pos_iff.1 hpos
      obtain ⟨w, hw⟩ := List.getElem?_of_mem ha
      have hwait : a = .waiting := by
        cases a with
        | waiting => rfl
        | _ => cases hwaits
      subst hwait
      have hhost := hi.hosting hw (by simp)
      refine ⟨w, isLive_iff.2 ⟨.hosting, .waiting, ?_, ?_, (by simp), (by simp)⟩⟩
      · exact (List.getElem?_append_left (List.getElem?_eq_some_iff.1 hhost).1).trans hhost
      · change p.workers[w]? = _
        rw [hworkers]
        exact hw

/-- A hosted worker takes a step: it is left, unless the queue is empty. -/
theorem worker (hi : Hosted s) {a : ExecutorAct} (ha : a.worker = some w)
    (hw : s.hosts[w]? = some .hosting) {e : WorkerExecutor} (hstep : s.executor.step a = some e) :
    Watched { s with executor := e } := by
  obtain ⟨x, y, hx, -, hworkers, -, -, hexit⟩ := hi.ok.worker_cases ha hstep
  intro hne
  refine ⟨w, isLive_iff.2 ⟨.hosting, y, hw, ?_, (by simp), fun hy => hne (hexit hy)⟩⟩
  change e.pool.workers[w]? = some y
  rw [hworkers]
  exact List.getElem?_set_self (List.getElem?_eq_some_iff.1 hx).1

/-- A host task comes to the start of its thread; if it is dropped another worker is left. -/
theorem host (h : Watched s) (hcond : s.attended (.host w) = true) (hstep : s.host w = some s') :
    Watched s' := by
  rw [AsyncWorkerExecutor.host] at hstep
  split at hstep
  · rename_i hw
    cases hstep
    intro hne
    -- the other hosts are as they were
    have hkeep : ∀ u, u ≠ w → s.isLive u = true →
        isLive { s with hosts := s.hosts.set w (if s.cancelled then .dropped else .hosting) } u =
            true := by
      intro u hu hlive
      obtain ⟨g, a, hg, ha, hdropped, hexited⟩ := isLive_iff.1 hlive
      exact isLive_iff.2 ⟨g, a, (List.getElem?_set_ne (Ne.symm hu)).trans hg, ha, hdropped, hexited⟩
    rw [attended, Bool.or_eq_true, Bool.or_eq_true] at hcond
    -- its thread starts, or nothing is queued, or another worker is alive
    rcases hcond with (hrun | hempty) | hother
    · -- its thread starts
      have hrun' : s.cancelled = false := by simpa using hrun
      obtain ⟨u, hu⟩ := h hne
      by_cases heq : u = w
      · subst heq
        obtain ⟨g, a, hg, ha, -, hexited⟩ := isLive_iff.1 hu
        refine ⟨u, isLive_iff.2 ⟨.hosting, a, ?_, ha, (by simp), hexited⟩⟩
        rw [hrun']
        exact List.getElem?_set_self (List.getElem?_eq_some_iff.1 hw).1
      · exact ⟨u, hkeep u heq hu⟩
    · exact absurd (List.isEmpty_iff.1 hempty) hne
    · obtain ⟨u, -, hu⟩ := List.any_eq_true.1 hother
      obtain ⟨hne', hlive⟩ := Bool.and_eq_true_iff.1 hu
      exact ⟨u, hkeep u (of_decide_eq_true hne') hlive⟩
  · cases hstep

/-- A step under the condition leaves a worker for the queue. -/
theorem step (hi : Hosted s) (h : Watched s) {a : AsyncExecutorAct} (hcond : s.attended a = true)
    (hstep : s.step a = some s') : Watched s' := by
  -- only a host and a worker change who is alive; the rest changes flags
  cases a with
  | aenter =>
    obtain ⟨e, he, rfl⟩ := Option.map_eq_some_iff.1 hstep
    obtain ⟨-, hworkers, hqueue, -⟩ := hi.callers (.inl rfl) he
    exact h.steady hqueue rfl hworkers
  | submit => exact submit hi h hstep
  | stop =>
    rw [AsyncWorkerExecutor.step, AsyncWorkerExecutor.stop] at hstep
    obtain ⟨e, he, rfl⟩ := Option.map_eq_some_iff.1 hstep
    obtain ⟨-, hworkers, hqueue, -⟩ := hi.callers (.inr (.inl rfl)) he
    exact h.steady hqueue rfl hworkers
  | cancelScope =>
    rw [AsyncWorkerExecutor.step] at hstep
    split at hstep
    · cases hstep
      exact h.steady rfl rfl rfl
    · cases hstep
  | cancelAround =>
    cases hstep
    exact h.steady rfl rfl rfl
  | cancel i =>
    rw [AsyncWorkerExecutor.step, stepExecutor] at hstep
    obtain ⟨e, he, rfl⟩ := Option.map_eq_some_iff.1 hstep
    cases he
    exact h.steady rfl rfl rfl
  | aexit raised =>
    rw [AsyncWorkerExecutor.step, aexit] at hstep
    split at hstep
    · obtain ⟨e, he, rfl⟩ := Option.map_eq_some_iff.1 hstep
      obtain ⟨-, hworkers, hqueue, -⟩ := hi.callers (.inr (.inr rfl)) he
      exact h.steady hqueue rfl hworkers
    · cases hstep
  | leave =>
    rw [AsyncWorkerExecutor.step, leave] at hstep
    split at hstep
    · cases hstep
      exact h.steady rfl rfl rfl
    · cases hstep
  | host w => exact h.host hcond hstep
  | loop w =>
    rw [AsyncWorkerExecutor.step, loop] at hstep
    split at hstep
    · rename_i hw
      obtain ⟨e, he, rfl⟩ := Option.map_eq_some_iff.1 hstep
      exact worker hi rfl hw he
    · cases hstep
  | begin w =>
    obtain ⟨e, he, rfl⟩ := Option.map_eq_some_iff.1 hstep
    obtain ⟨i, t, hw, -⟩ := hi.ok.begin_cases he
    exact worker hi rfl (hi.hosting hw (by simp)) he
  | finish w raised =>
    obtain ⟨e, he, rfl⟩ := Option.map_eq_some_iff.1 hstep
    obtain ⟨i, t, hw, -⟩ := hi.ok.finish_cases he
    exact worker hi rfl (hi.hosting hw (by simp)) he

end Watched

/-- When the block has been left, no worker runs a task, and the queue is empty if it was
watched. -/
theorem leavesNothing (hi : Hosted s) (h : Watched s) : LeavesNothing s := by
  intro hleft
  -- all hosts have ended, so no worker is left to run anything
  have hended : ∀ {w : Nat} {a : Worker Nat}, s.executor.pool.workers[w]? = some a →
      s.ended w = true := by
    intro w a hw
    exact (hi.left hleft).2 w (hi.length ▸ (List.getElem?_eq_some_iff.1 hw).1)
  have hqueue : s.executor.pool.st.queue = [] := by
    refine Classical.byContradiction fun hne => ?_
    obtain ⟨w, hlive⟩ := h hne
    obtain ⟨g, a, -, ha, -, -⟩ := isLive_iff.1 hlive
    exact not_live_of_ended (hended ha) hlive
  have hidle : ∀ w i : Nat, s.executor.pool.workers[w]? ≠ some (.running i) := by
    intro w i hw
    rcases ended_iff.1 (hended hw) with hdropped | ⟨-, hexited⟩
    · cases (hi.hosting hw (by simp)).symm.trans hdropped
    · cases hw.symm.trans hexited
  refine ⟨hqueue, fun t ht => ?_⟩
  obtain ⟨i, hi'⟩ := List.getElem?_of_mem ht
  -- a task is queued or with a worker, or it is settled
  cases hi.ok.stage i t hi' with
  | queued hq hnone hpop hruns hfut =>
    rw [hqueue] at hq
    exact absurd hq List.not_mem_nil
  | taken w hq honly hin hpop hruns hfut => exact absurd ((honly w).2 rfl) (hidle w i)
  | inside w hq honly hin hpop hruns hfut => exact absurd ((honly w).2 rfl) (hidle w i)
  | settled w hq hnone hpop hruns hfut => exact hfut

end AsyncWorkerExecutor

/-- Runs in which no host task is dropped while the queue has nobody else leave no future behind. -/
theorem async_executor_settles (as : List AsyncExecutorAct)
    (hmeets : asyncExecutor.Meets (fun s a => s.attended a = true) .start as) :
    asyncExecutor.Throughout AsyncWorkerExecutor.LeavesNothing .start as := by
  have hall : asyncExecutor.Throughout (fun s => s.Hosted ∧ s.Watched) .start as := by
    refine Lts.throughout_of_meets (I := fun _ => True) (fun _ _ _ _ _ => trivial)
      (fun s a u _ h hcond hstep => ?_)
      trivial ⟨.start, fun h => absurd rfl h⟩ hmeets
    exact ⟨h.1.step hstep, .step h.1 h.2 hcond hstep⟩
  exact Lts.Throughout.mono (fun s h => AsyncWorkerExecutor.leavesNothing h.1 h.2) hall

/-- A task is submitted while the first one runs, and `stop` cancels the host task of the second
worker before its thread has started. The first worker takes the second task. -/
def stopDuringTask : List AsyncExecutorAct :=
  [.aenter, .submit, .host 0, .loop 0, .begin 0, .submit, .stop, .cancelScope, .host 1,
    .aexit false, .finish 0 false, .loop 0, .begin 0, .finish 0 true, .loop 0, .leave]

theorem async_executor_settles_stopDuringTask :
    asyncExecutor.Throughout AsyncWorkerExecutor.LeavesNothing .start stopDuringTask ∧
      (asyncExecutor.exec .start stopDuringTask).map
        (fun s => (s.left, s.executor.tasks.map Submission.future)) =
        some (true, [.finished false, .finished true]) :=
  ⟨async_executor_settles stopDuringTask (by decide), by decide⟩

/-- The only worker's host task is cancelled by `stop` before its thread has started. -/
def stopAfterSubmit : List AsyncExecutorAct :=
  [.aenter, .submit, .stop, .cancelScope, .aexit false, .host 0, .leave]

/-- The block has been left, and the future of the task is pending. -/
theorem stranded :
    ¬ ∀ as, asyncExecutor.Throughout AsyncWorkerExecutor.LeavesNothing .start as := by
  intro h
  have hrun := Lts.throughout_iff_prefix.1 (h stopAfterSubmit) _ _ (List.prefix_refl _)
    (Option.some_get
      (show (asyncExecutor.exec .start stopAfterSubmit).isSome = true by decide)).symm
  have hqueue := (hrun (by decide)).1
  revert hqueue
  decide

end LocalPost.Threadtools.Executor
