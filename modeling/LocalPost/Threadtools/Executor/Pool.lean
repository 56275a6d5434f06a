import LocalPost.Core.Lts
import LocalPost.Core.Condition

/-!
# The spawn-on-demand worker pool

`PoolState` is the state that `_WorkerPoolBase` guards with its condition; `submit`, `_mark_closed`
and the two ways a worker comes to the test of its loop are its critical sections. `Pool` adds the
workers, numbered in the order in which they were spawned, and `Pool.step` interleaves the critical
sections of any number of callers and workers. A task runs outside the lock, so its end is a step of
its own.
-/

set_option autoImplicit false

namespace LocalPost.Threadtools.Executor

open LocalPost.Core

universe u

/-- The fields of `_WorkerPoolBase`. -/
structure PoolState (τ : Type u) where
  queue : List τ
  idle : Int
  workerCount : Nat
  opened : Bool
  closed : Bool
  cond : Condition Nat

/-- How `submit` ends: it raises because the pool is not open, it raises because `_spawn_worker`
did, or the task is accepted, with or without a new worker. -/
inductive SubmitResult where
  | notOpen
  | spawnFailed
  | accepted (spawned : Bool)
  deriving DecidableEq, Repr

/-- What a worker does after its critical section: it sleeps, returns, or runs a task. -/
inductive LoopResult (τ : Type u) where
  | waiting
  | exited
  | took (task : τ)

/-- Where a worker stands: before its critical section, inside `wait`, running a task, or gone. -/
inductive Worker (τ : Type u) where
  | top
  | waiting
  | running (task : τ)
  | exited
  deriving DecidableEq, Repr

/-- One step: `__enter__`, a `submit` (with the outcome of starting a thread, should it need one), a
`stop`, `__exit__`, a worker's next critical section, the end of a worker's task. -/
inductive Act (τ : Type u) where
  | enter
  | submit (task : τ) (started : Bool)
  | stop
  | exit
  | loop (w : Nat)
  | finish (w : Nat)
  deriving DecidableEq, Repr

/-- A pool with its workers. -/
structure Pool (τ : Type u) where
  st : PoolState τ
  workers : List (Worker τ)

namespace PoolState

variable {τ : Type u}

/-- `_WorkerPoolBase.__init__`. -/
def new : PoolState τ := ⟨[], 0, 0, false, false, .empty⟩

/-- `_WorkerPoolBase.submit`. -/
def submit (st : PoolState τ) (task : τ) (started : Bool) : PoolState τ × SubmitResult :=
  if !st.opened || st.closed then (st, .notOpen)
  else if st.idle = 0 then
    if started then
      ({ st with
          queue := st.queue ++ [task]
          workerCount := st.workerCount + 1
          cond := st.cond.notify }, .accepted true)
    else ({ st with queue := st.queue ++ [task] }, .spawnFailed)
  else ({ st with queue := st.queue ++ [task], cond := st.cond.notify }, .accepted false)

/-- `_WorkerPoolBase._mark_closed`. -/
def markClosed (st : PoolState τ) : PoolState τ × Bool :=
  if st.closed then (st, false)
  else ({ st with closed := true, cond := st.cond.notifyAll }, true)

/-- `_WorkerPoolBase.stop`. -/
def stop (st : PoolState τ) : PoolState τ :=
  if st.opened then st.markClosed.1 else st

/-- The loop test of `_run_worker` and what follows it in the block, run by worker `w`. -/
def loopTest (st : PoolState τ) (w : Nat) : PoolState τ × LoopResult τ :=
  match st.queue with
  | task :: rest => ({ st with idle := st.idle - 1, queue := rest }, .took task)
  | [] =>
    if st.closed then ({ st with idle := st.idle - 1 }, .exited)
    else ({ st with cond := st.cond.wait w }, .waiting)

/-- The block of `_run_worker` from its beginning. -/
def loopTop (st : PoolState τ) (w : Nat) : PoolState τ × LoopResult τ :=
  loopTest { st with idle := st.idle + 1 } w

/-- The block of `_run_worker` from the return of `wait`. -/
def loopWoken (st : PoolState τ) (w : Nat) : PoolState τ × LoopResult τ :=
  loopTest { st with cond := st.cond.recheck w } w

/-- `submit` on an open pool appends the task; what else it does depends on `_idle`. -/
theorem submit_open {st : PoolState τ} {task : τ} {started : Bool} (hopen : st.opened = true)
    (hclosed : st.closed = false) :
    st.submit task started =
      if st.idle = 0 then
        if started then
          ({ st with
              queue := st.queue ++ [task]
              workerCount := st.workerCount + 1
              cond := st.cond.notify }, .accepted true)
        else ({ st with queue := st.queue ++ [task] }, .spawnFailed)
      else ({ st with queue := st.queue ++ [task], cond := st.cond.notify }, .accepted false) := by
  rw [submit, if_neg (by simp [hopen, hclosed])]

theorem submit_notOpen {st : PoolState τ} {task : τ} {started : Bool}
    (h : ¬(st.opened = true ∧ st.closed = false)) : st.submit task started = (st, .notOpen) := by
  rw [submit, if_pos]
  cases hopen : st.opened <;> cases hclosed : st.closed <;> simp_all

section LoopTest

variable {st : PoolState τ} {w : Nat} {task : τ} {rest : List τ}

theorem loopTop_cons (hq : st.queue = task :: rest) :
    st.loopTop w = ({ st with queue := rest }, .took task) := by
  simp [loopTop, loopTest, hq]

theorem loopTop_closed (hq : st.queue = []) (hclosed : st.closed = true) :
    st.loopTop w = (st, .exited) := by
  cases st with
  | mk queue idle workerCount opened closed cond => simp_all [loopTop, loopTest]

theorem loopTop_empty (hq : st.queue = []) (hclosed : st.closed = false) :
    st.loopTop w = ({ st with idle := st.idle + 1, cond := st.cond.wait w }, .waiting) := by
  simp [loopTop, loopTest, hq, hclosed]

theorem loopWoken_cons (hq : st.queue = task :: rest) :
    st.loopWoken w =
      ({ st with queue := rest, idle := st.idle - 1, cond := st.cond.recheck w }, .took task) := by
  simp [loopWoken, loopTest, hq]

theorem loopWoken_closed (hq : st.queue = []) (hclosed : st.closed = true) :
    st.loopWoken w =
      ({ st with idle := st.idle - 1, cond := st.cond.recheck w }, .exited) := by
  simp [loopWoken, loopTest, hq, hclosed]

theorem loopWoken_empty (hq : st.queue = []) (hclosed : st.closed = false) :
    st.loopWoken w = ({ st with cond := (st.cond.recheck w).wait w }, .waiting) := by
  simp [loopWoken, loopTest, hq, hclosed]

end LoopTest

end PoolState

namespace Pool

variable {τ : Type u}

/-- A pool that has not been entered. -/
def start : Pool τ := ⟨.new, []⟩

/-- The control point after a critical section. -/
def after : LoopResult τ → Worker τ
  | .waiting => .waiting
  | .exited => .exited
  | .took task => .running task

/-- Worker `w` runs its next critical section. A sleeping worker goes on only when notified. -/
def loop (s : Pool τ) (w : Nat) : Option (Pool τ) :=
  match s.workers[w]? with
  | some .top =>
    let (st, r) := s.st.loopTop w
    some ⟨st, s.workers.set w (after r)⟩
  | some .waiting =>
    if w ∈ s.st.cond.waiters then none
    else
      let (st, r) := s.st.loopWoken w
      some ⟨st, s.workers.set w (after r)⟩
  | _ => none

/-- One step of the pool. A call that raises leaves the pool alone, except that a failed spawn comes
after the append. -/
def step (s : Pool τ) : Act τ → Option (Pool τ)
  | .enter => if s.st.closed then some s else some ⟨{ s.st with opened := true }, s.workers⟩
  | .submit task started =>
    match s.st.submit task started with
    | (st, .accepted true) => some ⟨st, s.workers ++ [.top]⟩
    | (st, _) => some ⟨st, s.workers⟩
  | .stop => some ⟨s.st.stop, s.workers⟩
  | .exit => some ⟨s.st.markClosed.1, s.workers⟩
  | .loop w => s.loop w
  | .finish w =>
    match s.workers[w]? with
    | some (.running _) => some ⟨s.st, s.workers.set w .top⟩
    | _ => none

end Pool

/-- A pool with any number of callers. -/
def system (τ : Type u) : Lts (Pool τ) (Act τ) where
  init s := s = Pool.start
  step := Pool.step

end LocalPost.Threadtools.Executor
