import LocalPost.Threadtools.Executor.AsyncSettled
import LocalPost.Threadtools.Executor.AsyncPool

/-!
# A `submit` that raises

The modules on settled tasks let every worker start. Here the outcome of starting one is an input of
`submit`, as it is of `_spawn_worker`: `threading.Thread.start` and `Portal.run_sync` can raise. A
`submit` on a pool that is not open raises before it has touched anything. One whose worker cannot
be started raises after the task has been queued, and `WorkerExecutor` has put the thread into
`_workers` by then: the task can still be run by another worker, and `__exit__` raises when it comes
to join the thread that never started (`rejected_task_runs`).

`submit_atomic_iff` says for both executors that this is the only way in which a rejected submission
leaves something behind.
-/

set_option autoImplicit false

namespace LocalPost.Threadtools.Executor

open LocalPost.Core

/-- A call of `submit`: the number of its task, if the task was queued, and whether the call
raised. -/
structure SubmitCall where
  task : Option Nat
  raised : Bool
  deriving DecidableEq, Repr

/-- What is left of a call whose task would have the number `i`. -/
def SubmitResult.call (i : Nat) : SubmitResult → SubmitCall
  | .notOpen => ⟨none, true⟩
  | .spawnFailed => ⟨some i, true⟩
  | .accepted _ => ⟨some i, false⟩

/-- A call of `submit`, with the outcome of starting a worker should it need one, or another
step. -/
inductive SubmitAct (α : Type) where
  | submit (started : Bool)
  | other (a : α)
  deriving DecidableEq, Repr

/-- `__exit__` of a `WorkerExecutor`: the pool is closed, the threads of the snapshot that are left
to join, the call has returned, a `join` has raised. -/
inductive Leaving where
  | closed
  | joining (left : List (Option Nat))
  | returned
  | raised
  deriving DecidableEq, Repr

/-- `_WorkerPoolBase.submit` with its task. -/
def WorkerExecutor.attempt (s : WorkerExecutor) (started : Bool) : WorkerExecutor × SubmitResult :=
  match s.pool.st.submit s.tasks.length started with
  | (_, .notOpen) => (s, .notOpen)
  | (st, .spawnFailed) =>
    ({ s with pool := ⟨st, s.pool.workers⟩, tasks := s.tasks ++ [⟨.pending, [], 0⟩] }, .spawnFailed)
  | (st, .accepted spawned) =>
    ({ s with
        pool := ⟨st, if spawned then s.pool.workers ++ [.top] else s.pool.workers⟩
        tasks := s.tasks ++ [⟨.pending, [], 0⟩] }, .accepted spawned)

/-- A `WorkerExecutor` whose threads may fail to start: `threads` is `_workers`, where `some w` runs
worker `w` and `none` was never started; `calls` are the calls of `submit` so far, `leaving` those
of `__exit__`. The `exits` of the executor stay at the closing. -/
structure ThreadExecutor where
  executor : WorkerExecutor
  threads : List (Option Nat)
  calls : List SubmitCall
  leaving : List Leaving

namespace ThreadExecutor

/-- An executor that has not been entered. -/
def start : ThreadExecutor := ⟨.start, [], [], []⟩

/-- `submit`. The thread is in `_workers` before it is started. -/
def submit (s : ThreadExecutor) (started : Bool) : ThreadExecutor :=
  let (e, r) := s.executor.attempt started
  { s with
    executor := e
    threads := match r with
      | .accepted true => s.threads ++ [some s.executor.pool.workers.length]
      | .spawnFailed => s.threads ++ [none]
      | _ => s.threads
    calls := s.calls ++ [r.call s.executor.tasks.length] }

/-- Step of `__exit__` number `e` after the closing. `join` raises for a thread that was not
started. -/
def join (s : ThreadExecutor) (e : Nat) : Option ThreadExecutor :=
  match s.leaving[e]? with
  | some .closed => some { s with leaving := s.leaving.set e (.joining s.threads) }
  | some (.joining []) => some { s with leaving := s.leaving.set e .returned }
  | some (.joining (none :: _)) => some { s with leaving := s.leaving.set e .raised }
  | some (.joining (some w :: left)) =>
    if s.executor.pool.workers[w]? = some .exited then
      some { s with leaving := s.leaving.set e (.joining left) }
    else none
  | _ => none

/-- The executor after a step of the pool or of its tasks. -/
def stepExecutor (s : ThreadExecutor) (a : ExecutorAct) : Option ThreadExecutor :=
  (s.executor.step a).map fun e => { s with executor := e }

/-- One step of the executor. -/
def step (s : ThreadExecutor) : SubmitAct ExecutorAct → Option ThreadExecutor
  | .submit started => some (s.submit started)
  | .other .submit => none
  | .other .exit => ({ s with leaving := s.leaving ++ [Leaving.closed] }).stepExecutor .exit
  | .other (.join e) => s.join e
  | .other a => s.stepExecutor a

end ThreadExecutor

/-- A `WorkerExecutor` with any number of callers, whose threads may fail to start. -/
def threadExecutor : Lts ThreadExecutor (SubmitAct ExecutorAct) where
  init s := s = .start
  step := ThreadExecutor.step

/-- An `AsyncWorkerExecutor` whose portal may refuse to schedule a host task; `calls` are the calls
of `submit` so far. -/
structure PortalExecutor where
  base : AsyncWorkerExecutor
  calls : List SubmitCall

namespace PortalExecutor

/-- An executor that has not been entered. -/
def start : PortalExecutor := ⟨.start, []⟩

/-- `submit`. A host task that could not be scheduled is nowhere. -/
def submit (s : PortalExecutor) (started : Bool) : PortalExecutor :=
  let (e, r) := s.base.executor.attempt started
  { base := { s.base with
      executor := e
      hosts := match r with
        | .accepted true => s.base.hosts ++ [.scheduled]
        | _ => s.base.hosts }
    calls := s.calls ++ [r.call s.base.executor.tasks.length] }

/-- One step of the executor. -/
def step (s : PortalExecutor) : SubmitAct AsyncExecutorAct → Option PortalExecutor
  | .submit started => some (s.submit started)
  | .other .submit => none
  | .other a => (s.base.step a).map fun b => { s with base := b }

end PortalExecutor

/-- An `AsyncWorkerExecutor` with any number of callers, whose portal may refuse. -/
def portalExecutor : Lts PortalExecutor (SubmitAct AsyncExecutorAct) where
  init s := s = .start
  step := PortalExecutor.step

/-! ## What a rejected submission is to leave behind -/

/-- The functions of the rejected submissions have not been run. -/
def NeverRun (s : WorkerExecutor) (calls : List SubmitCall) : Prop :=
  ∀ c ∈ calls, c.raised = true → ∀ (i : Nat) (t : Submission), c.task = some i →
    s.tasks[i]? = some t → t.runs = 0

/-- The task queue, the number of workers and the workers are the same. -/
structure Untouched (s s' : WorkerExecutor) : Prop where
  queue : s'.pool.st.queue = s.pool.st.queue
  count : s'.pool.st.workerCount = s.pool.st.workerCount
  workers : s'.pool.workers = s.pool.workers

/-- The steps of the workers. -/
def SubmitAct.worker : SubmitAct ExecutorAct → Option Nat
  | .other a => a.worker
  | _ => none

/-- The steps of the workers and of the host tasks they run in. -/
def SubmitAct.hosted : SubmitAct AsyncExecutorAct → Option Nat
  | .other (.host w) => some w
  | .other (.loop w) => some w
  | .other (.begin w) => some w
  | .other (.finish w _) => some w
  | _ => none

/-- Leaving a `WorkerExecutor` works: no `join` raises, the workers of a closed pool have steps to
take and only so many, and when they have exited `__exit__` returns by its own steps. -/
structure ThreadExecutor.Leaves (s : ThreadExecutor) : Prop where
  noRaise : Leaving.raised ∉ s.leaving
  enabled : s.executor.pool.st.closed = true → ∀ (w : Nat) (a : Worker Nat),
    s.executor.pool.workers[w]? = some a → a ≠ .exited →
      ∃ act : SubmitAct ExecutorAct, act.worker = some w ∧ (s.step act).isSome
  bounded : s.executor.pool.st.closed = true → ∀ as t, threadExecutor.exec s as = some t →
    as.countP (fun a => a.worker.isSome) + t.executor.work ≤ s.executor.work
  returns : (∀ (w : Nat) (a : Worker Nat), s.executor.pool.workers[w]? = some a → a = .exited) →
    ∀ e < s.leaving.length, ∃ n t,
      threadExecutor.exec s (List.replicate n (.other (.join e))) = some t ∧
        t.leaving[e]? = some .returned

/-- An upper bound for the steps that the workers and hosts of a closed executor still take. -/
def PortalExecutor.work (s : PortalExecutor) : Nat :=
  s.base.executor.work + s.base.hosts.countP fun h => decide (h = .scheduled)

/-- Leaving an `AsyncWorkerExecutor` works: the host tasks that `__aexit__` waits for have steps to
take and only so many, and when they have ended the block is left. -/
structure PortalExecutor.Leaves (s : PortalExecutor) : Prop where
  enabled : s.base.exiting = true → ∀ w < s.base.hosts.length, s.base.ended w = false →
    ∃ act : SubmitAct AsyncExecutorAct, act.hosted = some w ∧ (s.step act).isSome
  bounded : s.base.exiting = true → ∀ as t, portalExecutor.exec s as = some t →
    as.countP (fun a => a.hosted.isSome) + t.work ≤ s.work
  leave : s.base.exiting = true → s.base.left = false →
    (∀ w < s.base.hosts.length, s.base.ended w = true) → (s.step (.other .leave)).isSome

/-- Rejected submissions of a `WorkerExecutor` do not come back. -/
structure ThreadExecutor.Rejects (s : ThreadExecutor) : Prop where
  neverRun : NeverRun s.executor s.calls
  leaves : s.Leaves

/-- Rejected submissions of an `AsyncWorkerExecutor` do not come back. -/
structure PortalExecutor.Rejects (s : PortalExecutor) : Prop where
  neverRun : NeverRun s.base.executor s.calls
  leaves : s.Leaves

/-- A `submit` that raises leaves the executor and `_workers` as they were. -/
def ThreadExecutor.Atomic (s : ThreadExecutor) (a : SubmitAct ExecutorAct) : Prop :=
  ∀ s' task, s.step a = some s' → s'.calls = s.calls ++ [⟨task, true⟩] →
    Untouched s.executor s'.executor ∧ s'.threads = s.threads

/-- A `submit` that raises leaves the executor and its host tasks as they were. -/
def PortalExecutor.Atomic (s : PortalExecutor) (a : SubmitAct AsyncExecutorAct) : Prop :=
  ∀ s' task, s.step a = some s' → s'.calls = s.calls ++ [⟨task, true⟩] →
    Untouched s.base.executor s'.base.executor ∧ s'.base.hosts = s.base.hosts

/-- The condition on a step: a `submit` that needs a worker can start it. -/
def CanStart {α : Type} (s : WorkerExecutor) : SubmitAct α → Prop
  | .submit started => AsyncPool.needsWorker s.pool.st = true → started = true
  | .other _ => True

/-- A closed pool needs no worker. -/
theorem canStart_of_closed {α : Type} {s : WorkerExecutor} (hclosed : s.pool.st.closed = true)
    (a : SubmitAct α) : CanStart s a := by
  cases a with
  | submit started =>
    intro hneeds
    simp [AsyncPool.needsWorker, hclosed] at hneeds
  | other b => trivial

/-! ## `submit` on the shared state -/

namespace WorkerExecutor

variable {s : WorkerExecutor}

/-- A `submit` that needs a worker and cannot start it raises with its task in the queue. -/
theorem attempt_failed (h : AsyncPool.needsWorker s.pool.st = true) :
    s.attempt false = ({ s with
      pool := ⟨{ s.pool.st with queue := s.pool.st.queue ++ [s.tasks.length] }, s.pool.workers⟩
      tasks := s.tasks ++ [⟨.pending, [], 0⟩] }, .spawnFailed) := by
  simp only [AsyncPool.needsWorker, Bool.and_eq_true, Bool.not_eq_true', decide_eq_true_eq] at h
  obtain ⟨⟨hopen, hclosed⟩, hidle⟩ := h
  rw [attempt, PoolState.submit_open hopen hclosed, if_pos hidle, if_neg (by simp)]

/-- A `submit` on a closed pool raises without a trace. -/
theorem attempt_closed (hclosed : s.pool.st.closed = true) (started : Bool) :
    s.attempt started = (s, .notOpen) := by
  have hrefused : s.pool.st.submit s.tasks.length started = (s.pool.st, .notOpen) :=
    PoolState.submit_notOpen fun h => by cases hclosed.symm.trans h.2
  rw [attempt, hrefused]

/-- Under the condition `submit` raises without a trace, or is the `submit` whose worker starts. -/
theorem attempt_cases {started : Bool}
    (h : AsyncPool.needsWorker s.pool.st = true → started = true) :
    (s.attempt started = (s, .notOpen) ∧ s.step .submit = some s) ∨
      ∃ spawned e, s.attempt started = (e, .accepted spawned) ∧ s.step .submit = some e ∧
        e.pool.workers = if spawned then s.pool.workers ++ [.top] else s.pool.workers := by
  -- an open executor accepts: with a new worker when nobody is idle
  by_cases hopen : s.pool.st.opened = true ∧ s.pool.st.closed = false
  · right
    have hsubmit := @PoolState.submit_open _ _ s.tasks.length started hopen.1 hopen.2
    have hbase := @PoolState.submit_open _ _ s.tasks.length true hopen.1 hopen.2
    by_cases hidle : s.pool.st.idle = 0
    · have hstarted : started = true := h (by simp [AsyncPool.needsWorker, hopen, hidle])
      subst hstarted
      rw [if_pos hidle, if_pos rfl] at hsubmit
      refine ⟨true, (s.attempt true).1, ?_, ?_, ?_⟩
      · simp only [attempt, hsubmit]
      · simp only [attempt, WorkerExecutor.step, WorkerExecutor.submit, hsubmit, Pool.step,
          Option.map_some, if_true]
      · simp only [attempt, hsubmit]
    · rw [if_neg hidle] at hsubmit hbase
      refine ⟨false, (s.attempt started).1, ?_, ?_, ?_⟩
      · simp only [attempt, hsubmit]
      · simp only [attempt, WorkerExecutor.step, WorkerExecutor.submit, hsubmit, hbase, Pool.step,
          Option.map_some, Bool.false_eq_true, if_false]
      · simp only [attempt, hsubmit]
  -- a closed one refuses, and nothing has changed
  · left
    have hrefused : ∀ b, s.pool.st.submit s.tasks.length b = (s.pool.st, .notOpen) :=
      fun b => PoolState.submit_notOpen hopen
    refine ⟨by rw [attempt, hrefused], ?_⟩
    rw [WorkerExecutor.step, WorkerExecutor.submit, hrefused]

end WorkerExecutor

/-! ## Runs of a `WorkerExecutor` -/

/-- A step that is not a `submit` neither adds a worker nor removes one. -/
theorem WorkerExecutor.Ok.workers_length {s s' : WorkerExecutor} (hi : s.Ok) {b : ExecutorAct}
    (hb : b ≠ .submit) (h : s.step b = some s') :
    s'.pool.workers.length = s.pool.workers.length := by
  -- the calls from outside the workers leave their number as it is
  have hcallers : ∀ {act : Act Nat} {r r' : WorkerExecutor},
      (act = .enter ∨ act = .stop ∨ act = .exit) → r.pool = s.pool → r.stepPool act = some r' →
        r'.pool.workers.length = s.pool.workers.length := by
    intro act r r' hact hr hstep
    obtain ⟨p, hp, rfl⟩ := Option.map_eq_some_iff.1 hstep
    rw [← hr]
    exact congrArg List.length (callers_cases hact hp).2.1
  have hworker : ∀ w, b.worker = some w → s'.pool.workers.length = s.pool.workers.length := by
    intro w hw
    obtain ⟨x, y, -, -, hworkers, -⟩ := hi.worker_cases hw h
    rw [hworkers, List.length_set]
  cases b with
  | enter => exact hcallers (.inl rfl) rfl h
  | submit => exact absurd rfl hb
  | stop => exact hcallers (.inr (.inl rfl)) rfl h
  | cancel i =>
    cases h
    rfl
  | exit =>
    exact hcallers (r := { s with exits := s.exits ++ [ExitCall.closed] }) (.inr (.inr rfl)) rfl h
  | join e =>
    simp only [WorkerExecutor.step, WorkerExecutor.join] at h
    repeat' split at h
    all_goals cases h <;> rfl
  | loop w => exact hworker w rfl
  | begin w => exact hworker w rfl
  | finish w raised => exact hworker w rfl

namespace ThreadExecutor

variable {s s' : ThreadExecutor}

/-- A call of `__exit__` joins threads that run a worker. -/
def LeavingOk (s : ThreadExecutor) : Leaving → Prop
  | .joining left => ∃ us : List Nat, left = us.map some ∧ ∀ u ∈ us,
    u < s.executor.pool.workers.length
  | .raised => False
  | _ => True

/-- What the runs keep in which every worker starts. -/
structure Sound (s : ThreadExecutor) : Prop where
  ok : s.executor.Ok
  threads : s.threads = (List.range s.executor.pool.workers.length).map some
  calls : ∀ c ∈ s.calls, c.raised = true → c.task = none
  leaving : ∀ call ∈ s.leaving, s.LeavingOk call

theorem LeavingOk.keep {call : Leaving} (h : s.LeavingOk call)
    (hlen : s.executor.pool.workers.length ≤ s'.executor.pool.workers.length) :
    s'.LeavingOk call := by
  cases call with
  | joining left =>
    obtain ⟨us, rfl, hlt⟩ := h
    exact ⟨us, rfl, fun u hu => Nat.lt_of_lt_of_le (hlt u hu) hlen⟩
  | raised => exact h
  | closed => trivial
  | returned => trivial

/-- A step of the executor that starts no worker. -/
theorem Sound.executor (hi : s.Sound) {b : ExecutorAct} (hb : b ≠ .submit)
    (h : s.stepExecutor b = some s') : s'.Sound := by
  obtain ⟨e, he, rfl⟩ := Option.map_eq_some_iff.1 h
  have hlen := hi.ok.workers_length hb he
  refine ⟨hi.ok.step he, ?_, hi.calls, fun call hcall => ?_⟩
  · exact hi.threads.trans (by rw [hlen])
  · exact (hi.leaving call hcall).keep (Nat.le_of_eq hlen.symm)

/-- One `__exit__` goes on. -/
theorem Sound.setLeaving (hi : s.Sound) {e : Nat} {call : Leaving} (hnew : s.LeavingOk call) :
    Sound { s with leaving := s.leaving.set e call } := by
  refine ⟨hi.ok, hi.threads, hi.calls, fun c hc => ?_⟩
  rcases List.mem_or_eq_of_mem_set hc with hold | rfl
  · exact (hi.leaving c hold).keep (Nat.le_refl _)
  · exact hnew.keep (Nat.le_refl _)

/-- A join keeps the executor sound. -/
theorem Sound.join (hi : s.Sound) {e : Nat} (h : s.join e = some s') : s'.Sound := by
  unfold ThreadExecutor.join at h
  split at h
  · cases h
    exact hi.setLeaving ⟨_, hi.threads, fun u hu => List.mem_range.1 hu⟩
  · cases h
    exact hi.setLeaving trivial
  · -- no thread of the snapshot was left unstarted
    rename_i he
    obtain ⟨us, hus, -⟩ := hi.leaving _ (List.mem_of_getElem? he)
    cases us <;> cases hus
  · rename_i w left he
    obtain ⟨us, hus, hlt⟩ := hi.leaving _ (List.mem_of_getElem? he)
    split at h
    · cases h
      cases us with
      | nil => cases hus
      | cons u us =>
        rw [List.map_cons, List.cons.injEq] at hus
        exact hi.setLeaving ⟨us, hus.2, fun v hv => hlt v (List.mem_cons_of_mem u hv)⟩
    · cases h
  · cases h

/-- A submission keeps the executor sound, if a worker that is needed can start. -/
theorem Sound.submit (hi : s.Sound) {started : Bool}
    (hcan : AsyncPool.needsWorker s.executor.pool.st = true → started = true) :
    (s.submit started).Sound := by
  -- a call in the log that raised has no task
  have hcalls : ∀ call : SubmitCall, (call.raised = true → call.task = none) →
      ∀ c ∈ s.calls ++ [call], c.raised = true → c.task = none := by
    intro call hnew c hc
    rcases List.mem_append.1 hc with hc | hc
    · exact hi.calls c hc
    · rw [List.mem_singleton.1 hc]
      exact hnew
  rcases WorkerExecutor.attempt_cases hcan with ⟨heq, -⟩ | ⟨spawned, e, heq, hstep, hworkers⟩
  · rw [ThreadExecutor.submit, heq]
    exact ⟨hi.ok, hi.threads, hcalls _ fun _ => rfl, hi.leaving⟩
  · rw [ThreadExecutor.submit, heq]
    refine ⟨hi.ok.step hstep, ?_, hcalls _ fun h => (by cases h), fun call hcall => ?_⟩
    -- a spawned worker has one more thread
    · cases spawned with
      | true =>
        rw [if_pos rfl] at hworkers
        simp only [hworkers, List.length_append, List.length_singleton, List.range_succ,
          List.map_append, List.map_singleton, hi.threads]
      | false =>
        rw [if_neg (by simp)] at hworkers
        simp only [hworkers]
        exact hi.threads
    -- who leaves has joined threads that are still there
    · refine (hi.leaving call hcall).keep ?_
      simp only [hworkers]
      split
      · exact Nat.le_of_lt (by simp)
      · exact Nat.le_refl _

/-- Every step keeps the executor sound, if workers can start. -/
theorem Sound.step (hi : s.Sound) {a : SubmitAct ExecutorAct} (hcan : CanStart s.executor a)
    (h : s.step a = some s') : s'.Sound := by
  cases a with
  | submit started =>
    cases h
    exact hi.submit hcan
  | other b =>
    cases b with
    | submit => cases h
    | exit =>
      have hclosed : Sound { s with leaving := s.leaving ++ [Leaving.closed] } := by
        refine ⟨hi.ok, hi.threads, hi.calls, fun call hcall => ?_⟩
        rcases List.mem_append.1 hcall with hold | hnew
        · exact (hi.leaving call hold).keep (Nat.le_refl _)
        · rw [List.mem_singleton.1 hnew]
          trivial
      exact hclosed.executor (by simp) h
    | join e => exact hi.join h
    | _ => exact hi.executor (by simp) h

/-- A step of a closed executor, in terms of its tasks. -/
theorem step_executor (hclosed : s.executor.pool.st.closed = true) {a : SubmitAct ExecutorAct}
    (h : s.step a = some s') : (s'.executor = s.executor ∧ a.worker = none) ∨
      ∃ b : ExecutorAct, s.executor.step b = some s'.executor ∧ b.worker = a.worker := by
  have hstep : ∀ {r : ThreadExecutor} {b : ExecutorAct}, r.executor = s.executor →
      r.stepExecutor b = some s' → s.executor.step b = some s'.executor := by
    intro r b hr hb
    obtain ⟨e, he, rfl⟩ := Option.map_eq_some_iff.1 hb
    rw [← hr]
    exact he
  cases a with
  | submit started =>
    -- a closed executor accepts nothing
    cases h
    exact .inl ⟨by rw [ThreadExecutor.submit, WorkerExecutor.attempt_closed hclosed], rfl⟩
  | other b =>
    cases b with
    | submit => cases h
    | exit =>
      exact .inr ⟨.exit,
        hstep (r := { s with leaving := s.leaving ++ [Leaving.closed] }) rfl h, rfl⟩
    -- a join looks at the workers, and changes none
    | join e =>
      refine .inl ⟨?_, rfl⟩
      simp only [ThreadExecutor.step, ThreadExecutor.join] at h
      repeat' split at h
      all_goals cases h <;> rfl
    | _ => exact .inr ⟨_, hstep rfl h, rfl⟩

theorem leaving_set {e : Nat} {call new : Leaving} (he : s.leaving[e]? = some call) :
    (s.leaving.set e new)[e]? = some new :=
  List.getElem?_set_self (List.getElem?_eq_some_iff.1 he).1

/-- Once every worker has exited, the joins of a call of `__exit__` go through one after the
other. -/
theorem joins {us : List Nat} {e : Nat} (he : s.leaving[e]? = some (.joining (us.map some)))
    (hall : ∀ u ∈ us, s.executor.pool.workers[u]? = some .exited) :
    ∃ n t, threadExecutor.exec s (List.replicate n (.other (.join e))) = some t ∧
      t.leaving[e]? = some .returned := by
  induction us generalizing s with
  | nil =>
    refine ⟨1, { s with leaving := s.leaving.set e .returned },
      (Lts.exec_cons threadExecutor).2 ⟨_, ?_, rfl⟩, leaving_set he⟩
    simp only [threadExecutor, ThreadExecutor.step, ThreadExecutor.join, he, List.map_nil]
  | cons u us ih =>
    have hstep : threadExecutor.step s (.other (.join e)) =
        some { s with leaving := s.leaving.set e (.joining (us.map some)) } := by
      simp only [threadExecutor, ThreadExecutor.step, ThreadExecutor.join, he, List.map_cons]
      rw [if_pos (hall u List.mem_cons_self)]
    obtain ⟨n, t, hrun, ht⟩ := ih
      (s := { s with leaving := s.leaving.set e (.joining (us.map some)) }) (leaving_set he)
      fun v hv => hall v (List.mem_cons_of_mem u hv)
    exact ⟨n + 1, t, (Lts.exec_cons threadExecutor).2 ⟨_, hstep, hrun⟩, ht⟩

/-- When all workers have exited, the joins of a block that is left come to an end. -/
theorem Sound.returns (hi : s.Sound)
    (hall : ∀ (w : Nat) (a : Worker Nat), s.executor.pool.workers[w]? = some a → a = .exited)
    {e : Nat} (he : e < s.leaving.length) :
    ∃ n t, threadExecutor.exec s (List.replicate n (.other (.join e))) = some t ∧
      t.leaving[e]? = some .returned := by
  have hexited : ∀ u < s.executor.pool.workers.length,
      s.executor.pool.workers[u]? = some .exited := by
    intro u hu
    rw [List.getElem?_eq_getElem hu, hall u _ (List.getElem?_eq_getElem hu)]
  obtain ⟨call, hcall⟩ : ∃ call, s.leaving[e]? = some call := ⟨_, List.getElem?_eq_getElem he⟩
  have hok := hi.leaving call (List.mem_of_getElem? hcall)
  cases call with
  | closed =>
    -- the first step takes the snapshot
    have hstep : threadExecutor.step s (.other (.join e)) =
        some { s with leaving := s.leaving.set e (.joining s.threads) } := by
      simp only [threadExecutor, ThreadExecutor.step, ThreadExecutor.join, hcall]
    have hsnapshot : (s.leaving.set e (.joining s.threads))[e]? =
        some (.joining ((List.range s.executor.pool.workers.length).map some)) := by
      rw [leaving_set hcall, hi.threads]
    obtain ⟨n, t, hrun, ht⟩ :=
      joins (s := { s with leaving := s.leaving.set e (.joining s.threads) })
      hsnapshot fun u hu => hexited u (List.mem_range.1 hu)
    exact ⟨n + 1, t, (Lts.exec_cons threadExecutor).2 ⟨_, hstep, hrun⟩, ht⟩
  | joining left =>
    obtain ⟨us, rfl, hlt⟩ := hok
    exact joins hcall fun u hu => hexited u (hlt u hu)
  | returned => exact ⟨0, s, rfl, hcall⟩
  | raised => exact hok.elim

/-- After the close, the workers have only so many steps to take. -/
theorem Sound.bounded (hi : s.Sound) (hclosed : s.executor.pool.st.closed = true)
    {as : List (SubmitAct ExecutorAct)} {t : ThreadExecutor}
    (hrun : threadExecutor.exec s as = some t) :
    as.countP (fun a => a.worker.isSome) + t.executor.work ≤ s.executor.work := by
  induction as generalizing s with
  | nil =>
    cases hrun
    simp
  | cons a as ih =>
    obtain ⟨u, hu, hrest⟩ := (Lts.exec_cons threadExecutor).1 hrun
    have hcan := canStart_of_closed hclosed a
    rw [List.countP_cons]
    rcases step_executor hclosed hu with ⟨hsame, hnone⟩ | ⟨b, hb, hworker⟩
    · have hle := ih (hi.step hcan hu) (hsame ▸ hclosed) hrest
      rw [hsame] at hle
      simpa [hnone] using hle
    · obtain ⟨hc, hwork⟩ := WorkerExecutor.work_step hi.ok hclosed hb
      have hle := ih (hi.step hcan hu) hc hrest
      rw [hworker] at hwork
      omega

theorem Sound.rejects (hi : s.Sound) : s.Rejects := by
  refine ⟨fun c hc hraised i t htask _ => ?_, ⟨fun h => hi.leaving _ h, fun hclosed w a hw ha => ?_,
    fun hclosed as t hrun => hi.bounded hclosed hrun, fun hall e he => hi.returns hall he⟩⟩
  · rw [hi.calls c hc hraised] at htask
    cases htask
  · obtain ⟨act, hworker, hsome⟩ := WorkerExecutor.enabled hi.ok hclosed hw ha
    refine ⟨.other act, hworker, ?_⟩
    cases act with
    | loop v => simpa [ThreadExecutor.step, stepExecutor] using hsome
    | begin v => simpa [ThreadExecutor.step, stepExecutor] using hsome
    | finish v raised => simpa [ThreadExecutor.step, stepExecutor] using hsome
    | _ => cases hworker

/-- A rejected `submit` leaves nothing behind exactly when it did not fail to start a worker. -/
theorem atomic_iff (s : ThreadExecutor) (a : SubmitAct ExecutorAct) :
    s.Atomic a ↔ CanStart s.executor a := by
  constructor
  · intro h
    cases a with
    | other b => trivial
    | submit started =>
      intro hneeds
      cases started with
      | true => rfl
      | false =>
        -- The task is in the queue when the thread fails to start.
        have hfailed := WorkerExecutor.attempt_failed hneeds
        obtain ⟨hsame, -⟩ := h (s.submit false) (some s.executor.tasks.length) rfl
          (by rw [submit, hfailed]; rfl)
        have hqueue := hsame.queue
        rw [submit, hfailed] at hqueue
        simp at hqueue
  · intro hcan s' task hstep hcalls
    cases a with
    | submit started =>
      cases hstep
      rcases WorkerExecutor.attempt_cases hcan with ⟨heq, -⟩ | ⟨spawned, e, heq, -⟩
      · rw [submit, heq]
        exact ⟨⟨rfl, rfl, rfl⟩, rfl⟩
      · rw [submit, heq] at hcalls
        simp [SubmitResult.call] at hcalls
    | other b =>
      have hkeep : ∀ {r : ThreadExecutor} {b : ExecutorAct}, r.calls = s.calls →
          r.stepExecutor b = some s' → s'.calls = s.calls := by
        intro r b hr hb
        obtain ⟨e, -, rfl⟩ := Option.map_eq_some_iff.1 hb
        exact hr
      have hsame : s'.calls = s.calls := by
        cases b with
        | submit => cases hstep
        | join e =>
          simp only [ThreadExecutor.step, ThreadExecutor.join] at hstep
          repeat' split at hstep
          all_goals cases hstep <;> rfl
        | exit => exact hkeep (r := { s with leaving := s.leaving ++ [Leaving.closed] }) rfl hstep
        | _ => exact hkeep rfl hstep
      rw [hsame] at hcalls
      simp at hcalls

end ThreadExecutor

/-! ## Runs of an `AsyncWorkerExecutor` -/

namespace PortalExecutor

variable {s s' : PortalExecutor}

/-- What the runs keep in which every host task is scheduled. -/
structure Sound (s : PortalExecutor) : Prop where
  hosted : s.base.Hosted
  calls : ∀ c ∈ s.calls, c.raised = true → c.task = none

/-- Under the condition `submit` is the `submit` whose host task is scheduled. -/
theorem submit_base {started : Bool}
    (hcan : AsyncPool.needsWorker s.base.executor.pool.st = true → started = true) :
    s.base.step .submit = some (s.submit started).base ∧
      ∃ call : SubmitCall, (s.submit started).calls = s.calls ++ [call] ∧
        (call.raised = true → call.task = none ∧ (s.submit started).base = s.base) := by
  rcases WorkerExecutor.attempt_cases hcan with ⟨heq, hstep⟩ | ⟨spawned, e, heq, hstep, hworkers⟩
  · rw [submit, heq]
    refine ⟨?_, _, rfl, fun _ => ⟨rfl, rfl⟩⟩
    simp only [AsyncWorkerExecutor.step, AsyncWorkerExecutor.submit, hstep, Option.map_some,
      Nat.sub_self, List.replicate_zero, List.append_nil]
  · rw [submit, heq]
    refine ⟨?_, _, rfl, fun h => (by cases h)⟩
    simp only [AsyncWorkerExecutor.step, AsyncWorkerExecutor.submit, hstep, Option.map_some]
    cases spawned with
    | true =>
      rw [if_pos rfl] at hworkers
      simp [hworkers]
    | false =>
      rw [if_neg (by simp)] at hworkers
      simp [hworkers]

/-- The other steps are those of the executor. -/
theorem step_other {b : AsyncExecutorAct} (h : s.step (.other b) = some s') :
    ∃ base, s.base.step b = some base ∧ b ≠ .submit ∧ s' = { s with base := base } := by
  have hmap : b ≠ .submit ∧ (s.base.step b).map
      (fun base => { s with base := base }) = some s' := by
    cases b with
    | submit => cases h
    | _ => exact ⟨by simp, h⟩
  obtain ⟨base, hbase, rfl⟩ := Option.map_eq_some_iff.1 hmap.2
  exact ⟨base, hbase, hmap.1, rfl⟩

/-- Every step keeps the executor sound, if workers can start. -/
theorem Sound.step (hi : s.Sound) {a : SubmitAct AsyncExecutorAct}
    (hcan : CanStart s.base.executor a) (h : s.step a = some s') : s'.Sound := by
  cases a with
  | submit started =>
    cases h
    obtain ⟨hbase, call, hcalls, hraised⟩ := submit_base hcan
    refine ⟨hi.hosted.step hbase, fun c hc => ?_⟩
    rw [hcalls] at hc
    rcases List.mem_append.1 hc with hold | hnew
    · exact hi.calls c hold
    · rw [List.mem_singleton.1 hnew]
      exact fun hr => (hraised hr).1
  | other b =>
    obtain ⟨base, hbase, -, rfl⟩ := step_other h
    exact ⟨hi.hosted.step hbase, hi.calls⟩

/-- A host that the loop takes up is scheduled no longer. -/
theorem scheduled_set {hosts : List Host} {w : Nat} (hw : hosts[w]? = some .scheduled)
    (cancelled : Bool) :
    (hosts.set w (if cancelled then .dropped else .hosting)).countP
    (fun h => decide (h = .scheduled)) + 1 =
      hosts.countP fun h => decide (h = .scheduled) := by
  have hcount := countP_set_add (p := fun h : Host => decide (h = .scheduled))
    (if cancelled then .dropped else .hosting) hw
  have hnew : decide ((if cancelled then Host.dropped else .hosting) = .scheduled) = false := by
    cases cancelled <;> rfl
  rw [hnew] at hcount
  simpa only [decide_true, if_true, Bool.false_eq_true, if_false, Nat.add_zero] using hcount

/-- A step of a closed executor takes from the work that is left if a worker or a host takes it, and
adds none. -/
theorem work_step (hi : s.Sound) (hclosed : s.base.executor.pool.st.closed = true)
    {a : SubmitAct AsyncExecutorAct} (h : s.step a = some s') :
    s'.base.executor.pool.st.closed = true ∧ (if a.hosted.isSome then 1 else 0) +
      s'.work ≤ s.work := by
  -- A step of the tasks leaves the scheduled hosts alone.
  have htasks : ∀ {b : ExecutorAct} {r : PortalExecutor}, b.worker = a.hosted →
      s.base.executor.step b = some r.base.executor → r.base.hosts = s.base.hosts →
      r.base.executor.pool.st.closed = true ∧
        (if a.hosted.isSome then 1 else 0) + r.work ≤ s.work := by
    intro b r hb hstep hhosts
    obtain ⟨hc, hwork⟩ := WorkerExecutor.work_step hi.hosted.ok hclosed hstep
    rw [hb] at hwork
    refine ⟨hc, ?_⟩
    simp only [work, hhosts]
    omega
  cases a with
  | submit started =>
    cases h
    have hbase : (s.submit started).base = s.base := by
      rw [submit, WorkerExecutor.attempt_closed hclosed]
    simp only [work, hbase]
    exact ⟨hclosed, Nat.le_of_eq (Nat.zero_add _)⟩
  | other b =>
    obtain ⟨base, hbase, hne, rfl⟩ := step_other h
    cases b with
    | submit => exact absurd rfl hne
    | aenter =>
      obtain ⟨e, he, rfl⟩ := Option.map_eq_some_iff.1 hbase
      exact htasks (b := .enter) rfl he rfl
    | stop =>
      rw [AsyncWorkerExecutor.step, AsyncWorkerExecutor.stop] at hbase
      obtain ⟨e, he, rfl⟩ := Option.map_eq_some_iff.1 hbase
      exact htasks (b := .stop) rfl he rfl
    | cancelScope =>
      rw [AsyncWorkerExecutor.step] at hbase
      split at hbase
      · cases hbase
        exact ⟨hclosed, Nat.le_of_eq (Nat.zero_add _)⟩
      · cases hbase
    | cancelAround =>
      cases hbase
      exact ⟨hclosed, Nat.le_of_eq (Nat.zero_add _)⟩
    | cancel i =>
      rw [AsyncWorkerExecutor.step, AsyncWorkerExecutor.stepExecutor] at hbase
      obtain ⟨e, he, rfl⟩ := Option.map_eq_some_iff.1 hbase
      exact htasks (b := .cancel i) rfl he rfl
    | aexit raised =>
      rw [AsyncWorkerExecutor.step, AsyncWorkerExecutor.aexit] at hbase
      split at hbase
      · obtain ⟨e, he, rfl⟩ := Option.map_eq_some_iff.1 hbase
        obtain ⟨p, hp, rfl⟩ := Option.map_eq_some_iff.1 he
        obtain ⟨hq, hw, hc, -⟩ := WorkerExecutor.callers_cases (.inr (.inr rfl)) hp
        refine ⟨hc hclosed, ?_⟩
        simp only [work, WorkerExecutor.work, hq, hw]
        exact Nat.le_of_eq (Nat.zero_add _)
      · cases hbase
    | leave =>
      rw [AsyncWorkerExecutor.step, AsyncWorkerExecutor.leave] at hbase
      split at hbase
      · cases hbase
        exact ⟨hclosed, Nat.le_of_eq (Nat.zero_add _)⟩
      · cases hbase
    | host w =>
      rw [AsyncWorkerExecutor.step, AsyncWorkerExecutor.host] at hbase
      split at hbase
      · rename_i hw
        cases hbase
        refine ⟨hclosed, ?_⟩
        have hcount := scheduled_set hw s.base.cancelled
        simp only [work, SubmitAct.hosted, Option.isSome_some, if_true]
        omega
      · cases hbase
    | loop w =>
      rw [AsyncWorkerExecutor.step, AsyncWorkerExecutor.loop] at hbase
      split at hbase
      · obtain ⟨e, he, rfl⟩ := Option.map_eq_some_iff.1 hbase
        exact htasks (b := .loop w) rfl he rfl
      · cases hbase
    | begin w =>
      rw [AsyncWorkerExecutor.step, AsyncWorkerExecutor.stepExecutor] at hbase
      obtain ⟨e, he, rfl⟩ := Option.map_eq_some_iff.1 hbase
      exact htasks (b := .begin w) rfl he rfl
    | finish w raised =>
      rw [AsyncWorkerExecutor.step, AsyncWorkerExecutor.stepExecutor] at hbase
      obtain ⟨e, he, rfl⟩ := Option.map_eq_some_iff.1 hbase
      exact htasks (b := .finish w raised) rfl he rfl

/-- After the close, the host tasks have only so many steps to take. -/
theorem Sound.bounded (hi : s.Sound) (hclosed : s.base.executor.pool.st.closed = true)
    {as : List (SubmitAct AsyncExecutorAct)} {t : PortalExecutor}
    (hrun : portalExecutor.exec s as = some t) :
    as.countP (fun a => a.hosted.isSome) + t.work ≤ s.work := by
  induction as generalizing s with
  | nil =>
    cases hrun
    simp
  | cons a as ih =>
    obtain ⟨u, hu, hrest⟩ := (Lts.exec_cons portalExecutor).1 hrun
    obtain ⟨hc, hwork⟩ := work_step hi hclosed hu
    have hle := ih (hi.step (canStart_of_closed hclosed a) hu) hc hrest
    rw [List.countP_cons]
    omega

/-- A host task that has not ended has a step to take, or its worker has. -/
theorem Sound.enabled (hi : s.Sound) (hclosed : s.base.executor.pool.st.closed = true) {w : Nat}
    (hw : w < s.base.hosts.length) (hended : s.base.ended w = false) :
    ∃ act : SubmitAct AsyncExecutorAct, act.hosted = some w ∧ (s.step act).isSome := by
  have hhost := List.getElem?_eq_getElem hw
  cases hh : s.base.hosts[w] with
  -- its host can start, or be dropped; behind that the worker itself can go on
  | scheduled =>
    rw [hh] at hhost
    exact ⟨.other (.host w), rfl, by
      simp [PortalExecutor.step, AsyncWorkerExecutor.step, AsyncWorkerExecutor.host, hhost]⟩
  | dropped =>
    rw [hh] at hhost
    rw [AsyncWorkerExecutor.ended_iff.2 (.inl hhost)] at hended
    cases hended
  | hosting =>
    rw [hh] at hhost
    have hlt : w < s.base.executor.pool.workers.length := by
      rw [← hi.hosted.length]
      exact hw
    have hworker := List.getElem?_eq_getElem hlt
    have hlive : s.base.executor.pool.workers[w] ≠ .exited := by
      intro hexited
      rw [hexited] at hworker
      rw [AsyncWorkerExecutor.ended_iff.2 (.inr ⟨hhost, hworker⟩)] at hended
      cases hended
    -- the executor is closed, so a live worker always has a step
    obtain ⟨act, hact, hsome⟩ := WorkerExecutor.enabled hi.hosted.ok hclosed hworker hlive
    obtain ⟨e, he⟩ := Option.isSome_iff_exists.1 hsome
    cases act with
    | loop v =>
      cases hact
      exact ⟨.other (.loop w), rfl, by
        simp [PortalExecutor.step, AsyncWorkerExecutor.step, AsyncWorkerExecutor.loop, hhost,
          AsyncWorkerExecutor.stepExecutor, he]⟩
    | begin v =>
      cases hact
      exact ⟨.other (.begin w), rfl, by
        simp [PortalExecutor.step, AsyncWorkerExecutor.step, AsyncWorkerExecutor.stepExecutor, he]⟩
    | finish v raised =>
      cases hact
      exact ⟨.other (.finish w raised), rfl, by
        simp [PortalExecutor.step, AsyncWorkerExecutor.step, AsyncWorkerExecutor.stepExecutor, he]⟩
    | _ => cases hact

theorem Sound.rejects (hi : s.Sound) : s.Rejects := by
  refine ⟨fun c hc hraised i t htask _ => ?_, ⟨fun hexiting w hw hended => ?_,
    fun hexiting as t hrun => hi.bounded (hi.hosted.exiting hexiting) hrun,
    fun hexiting hleft hall => ?_⟩⟩
  · rw [hi.calls c hc hraised] at htask
    cases htask
  · exact hi.enabled (hi.hosted.exiting hexiting) hw hended
  · have hguard : (s.base.exiting && !s.base.left &&
        (List.range s.base.hosts.length).all s.base.ended) = true := by
      rw [hexiting, hleft]
      exact List.all_eq_true.2 fun w hw => hall w (List.mem_range.1 hw)
    simp only [PortalExecutor.step, AsyncWorkerExecutor.step, AsyncWorkerExecutor.leave, hguard,
      if_true, Option.map_some, Option.isSome_some]

/-- A rejected `submit` leaves nothing behind exactly when it did not fail to start a worker. -/
theorem atomic_iff (s : PortalExecutor) (a : SubmitAct AsyncExecutorAct) :
    s.Atomic a ↔ CanStart s.base.executor a := by
  constructor
  · intro h
    cases a with
    | other b => trivial
    | submit started =>
      intro hneeds
      cases started with
      | true => rfl
      | false =>
        -- a failed start raises to the caller, and leaves its task in the queue
        have hfailed := WorkerExecutor.attempt_failed hneeds
        obtain ⟨hsame, -⟩ := h (s.submit false) (some s.base.executor.tasks.length) rfl
          (by rw [submit, hfailed]; rfl)
        have hqueue := hsame.queue
        rw [submit, hfailed] at hqueue
        simp at hqueue
  -- where threads start, only a refused call raises
  · intro hcan s' task hstep hcalls
    cases a with
    | submit started =>
      cases hstep
      obtain ⟨-, call, hcall, hraised⟩ := submit_base hcan
      rw [hcall, List.append_cancel_left_eq, List.cons.injEq] at hcalls
      obtain ⟨-, hbase⟩ := hraised (by rw [hcalls.1])
      rw [hbase]
      exact ⟨⟨rfl, rfl, rfl⟩, rfl⟩
    | other b =>
      obtain ⟨base, -, -, rfl⟩ := step_other hstep
      simp at hcalls

end PortalExecutor

/-! ## Both executors -/

/-- In every run of either executor: a `submit` that raises leaves the queue, the count and the
workers as they were, its function is never run, and leaving the executor works, exactly when no
`submit` that needs a worker fails to start it. -/
theorem submit_atomic_iff (as : List (SubmitAct ExecutorAct))
    (bs : List (SubmitAct AsyncExecutorAct)) :
    (threadExecutor.Throughout ThreadExecutor.Rejects .start as ∧
        threadExecutor.Meets ThreadExecutor.Atomic .start as ↔
      threadExecutor.Meets (fun s a => CanStart s.executor a) .start as) ∧
    (portalExecutor.Throughout PortalExecutor.Rejects .start bs ∧
        portalExecutor.Meets PortalExecutor.Atomic .start bs ↔
      portalExecutor.Meets (fun s a => CanStart s.base.executor a) .start bs) := by
  have hthreads : threadExecutor.Meets ThreadExecutor.Atomic .start as ↔
      threadExecutor.Meets (fun s a => CanStart s.executor a) .start as :=
    Lts.meets_congr (I := fun _ => True) (fun _ _ _ _ _ => trivial)
      (fun s a _ => ThreadExecutor.atomic_iff s a) trivial
  have hportal : portalExecutor.Meets PortalExecutor.Atomic .start bs ↔
      portalExecutor.Meets (fun s a => CanStart s.base.executor a) .start bs :=
    Lts.meets_congr (I := fun _ => True) (fun _ _ _ _ _ => trivial)
      (fun s a _ => PortalExecutor.atomic_iff s a) trivial
  constructor
  -- every step of such a run keeps the accounting, so the rejections are right throughout
  · refine ⟨fun h => hthreads.1 h.2, fun hmeets => ⟨?_, hthreads.2 hmeets⟩⟩
    have hstart : ThreadExecutor.Sound .start :=
      ⟨.start, rfl, fun _ h => (by cases h), fun _ h => (by cases h)⟩
    have hsound : threadExecutor.Throughout ThreadExecutor.Sound .start as :=
      Lts.throughout_of_meets (I := fun _ => True) (fun _ _ _ _ _ => trivial)
        (fun s a u _ hi hcan hstep => hi.step hcan hstep) trivial hstart hmeets
    exact hsound.mono fun s hi => hi.rejects
  · refine ⟨fun h => hportal.1 h.2, fun hmeets => ⟨?_, hportal.2 hmeets⟩⟩
    have hstart : PortalExecutor.Sound .start := ⟨.start, fun _ h => (by cases h)⟩
    have hsound : portalExecutor.Throughout PortalExecutor.Sound .start bs :=
      Lts.throughout_of_meets (I := fun _ => True) (fun _ _ _ _ _ => trivial)
        (fun s a u _ hi hcan hstep => hi.step hcan hstep) trivial hstart hmeets
    exact hsound.mono fun s hi => hi.rejects

/-- The first task runs when a second one is submitted, and no thread can be started for it. -/
def noThread : List (SubmitAct ExecutorAct) :=
  [.other .enter, .submit true, .other (.loop 0), .other (.begin 0), .submit false,
    .other (.finish 0 false), .other (.loop 0), .other (.begin 0), .other (.finish 0 false),
    .other .exit, .other (.loop 0), .other (.join 0), .other (.join 0), .other (.join 0)]

/-- The same with a portal that refuses the second host task. -/
def noPortal : List (SubmitAct AsyncExecutorAct) :=
  [.other .aenter, .submit true, .other (.host 0), .other (.loop 0), .other (.begin 0),
    .submit false, .other (.finish 0 false), .other (.loop 0), .other (.begin 0)]

/-- The rejected task has been run by the first worker, and `__exit__` has raised. -/
theorem rejected_task_runs :
    (∃ s, threadExecutor.Reachable s ∧ s.calls = [⟨some 0, false⟩, ⟨some 1, true⟩] ∧
      s.threads = [some 0, none] ∧ s.leaving = [.raised] ∧
      s.executor.tasks = [⟨.finished false, [0], 1⟩, ⟨.finished false, [0], 1⟩] ∧ ¬s.Rejects) ∧
    ∃ s, portalExecutor.Reachable s ∧ s.calls = [⟨some 0, false⟩, ⟨some 1, true⟩] ∧
      s.base.executor.tasks = [⟨.finished false, [0], 1⟩, ⟨.running, [0], 1⟩] ∧ ¬s.Rejects := by
  have hthread := Lts.Reachable.of_isSome (M := threadExecutor)
    (s := .start) rfl noThread (by decide)
  have hportal := Lts.Reachable.of_isSome (M := portalExecutor)
    (s := .start) rfl noPortal (by decide)
  refine ⟨⟨_, hthread, rfl, rfl, rfl, rfl, fun h => ?_⟩, ⟨_, hportal, rfl, rfl, fun h => ?_⟩⟩
  · have hruns := h.neverRun ⟨some 1, true⟩ (by decide) rfl 1 ⟨.finished false, [0], 1⟩ rfl rfl
    cases hruns
  · have hruns := h.neverRun ⟨some 1, true⟩ (by decide) rfl 1 ⟨.running, [0], 1⟩ rfl rfl
    cases hruns

end LocalPost.Threadtools.Executor
