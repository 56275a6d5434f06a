import LocalPost.Threadtools.Executor.Pool

/-!
# WorkerExecutor with its tasks

`Pool` moves tasks between the queue and the workers. Here a task is a submission number, and
`WorkerExecutor` adds what the tasks and the owner see: the future of each submission, the workers
inside the task's function, and the calls of `__exit__`, each of which closes the pool, takes a
snapshot of `_workers` and joins the threads in it one after the other. `Task.run` is two steps,
before and after the function, so that a `cancel` of the future can come before, between and after
them.

Starting a thread succeeds.
-/

set_option autoImplicit false

namespace LocalPost.Threadtools.Executor

open LocalPost.Core

/-- The state of a `concurrent.futures.Future`. -/
inductive Future where
  | pending
  | running
  | cancelled
  | cancelledAndNotified
  | finished (raised : Bool)
  deriving DecidableEq, Repr

namespace Future

/-- `Future.done`. -/
def done : Future → Bool
  | .cancelled => true
  | .cancelledAndNotified => true
  | .finished _ => true
  | _ => false

/-- `Future.cancel`. -/
def cancel : Future → Future
  | .pending => .cancelled
  | f => f

/-- `Future.set_running_or_notify_cancel`: the new state and the result, or `none` when it
raises. -/
def setRunningOrNotifyCancel : Future → Option (Future × Bool)
  | .pending => some (.running, true)
  | .cancelled => some (.cancelledAndNotified, false)
  | _ => none

/-- `Future.set_result` and `Future.set_exception`, `none` when they raise. -/
def settle (raised : Bool) : Future → Option Future
  | .pending => some (.finished raised)
  | .running => some (.finished raised)
  | _ => none

/-- The future of a task whose function has not been called. -/
def unbegun : Future → Bool
  | .pending => true
  | .cancelled => true
  | _ => false

@[simp] theorem unbegun_cancel (f : Future) : f.cancel.unbegun = f.unbegun := by
  cases f <;> rfl

theorem done_cancel {f : Future} (h : f.done = true) : f.cancel.done = true := by
  cases f <;> simp_all [cancel, done]

end Future

/-- A submission whose `submit` returned: the future, the workers that popped it, the calls of its
function. -/
structure Submission where
  future : Future
  poppedBy : List Nat
  runs : Nat
  deriving DecidableEq, Repr

/-- A call of `__exit__`: the pool is closed, the threads of the snapshot that are left to join, the
call has returned. -/
inductive ExitCall where
  | closed
  | joining (left : List Nat)
  | returned
  deriving DecidableEq, Repr

/-- A `WorkerExecutor`. `inside` lists the workers that are inside the function of their task. -/
structure WorkerExecutor where
  pool : Pool Nat
  tasks : List Submission
  inside : List Nat
  exits : List ExitCall

namespace WorkerExecutor

/-- An executor that has not been entered. -/
def start : WorkerExecutor := ⟨.start, [], [], []⟩

/-- The pool after one of its own steps. -/
def stepPool (s : WorkerExecutor) (a : Act Nat) : Option WorkerExecutor :=
  (s.pool.step a).map fun p => { s with pool := p }

/-- `submit`: the task is queued, or the call raises because the executor is not open. -/
def submit (s : WorkerExecutor) : Option WorkerExecutor :=
  match (s.pool.st.submit s.tasks.length true).2 with
  | .accepted _ =>
    (s.pool.step (.submit s.tasks.length true)).map fun p =>
      { s with pool := p, tasks := s.tasks ++ [⟨.pending, [], 0⟩] }
  | _ => some s

/-- Worker `w` runs its next critical section and may come out of it with a task. -/
def loop (s : WorkerExecutor) (w : Nat) : Option WorkerExecutor :=
  (s.pool.loop w).map fun p =>
    match p.workers[w]? with
    | some (Worker.running i) =>
      { s with
        pool := p
        tasks := s.tasks.modify i fun t => { t with poppedBy := t.poppedBy ++ [w] } }
    | _ => { s with pool := p }

/-- The thread of worker `w` ends with an exception. -/
def die (s : WorkerExecutor) (w : Nat) : WorkerExecutor :=
  { s with pool := { s.pool with workers := s.pool.workers.set w .exited } }

/-- `Task.run` up to the call of the function. -/
def begin (s : WorkerExecutor) (w : Nat) : Option WorkerExecutor :=
  match s.pool.workers[w]? with
  | some (.running i) =>
    if w ∈ s.inside then none
    else
      match s.tasks[i]? with
      | some t =>
        match t.future.setRunningOrNotifyCancel with
        | some (f, true) =>
          some { s with
            tasks := s.tasks.modify i fun t => { t with future := f, runs := t.runs + 1 }
            inside := w :: s.inside }
        | some (f, false) =>
          ({ s with tasks := s.tasks.modify i fun t => { t with future := f } }).stepPool
            (.finish w)
        | none => some (s.die w)
      | none => none
  | _ => none

/-- The function of worker `w`'s task returns or raises, and the future is set. -/
def finish (s : WorkerExecutor) (w : Nat) (raised : Bool) : Option WorkerExecutor :=
  match s.pool.workers[w]? with
  | some (.running i) =>
    if w ∈ s.inside then
      let s' := { s with inside := s.inside.filter (· ≠ w) }
      match (s.tasks[i]?).bind fun t => t.future.settle raised with
      | some f =>
        ({ s' with tasks := s.tasks.modify i fun t => { t with future := f } }).stepPool (.finish w)
      | none => some (s'.die w)
    else none
  | _ => none

/-- Step of `__exit__` number `e` after the closing: the snapshot of `_workers`, the join of the
next thread, the return. -/
def join (s : WorkerExecutor) (e : Nat) : Option WorkerExecutor :=
  match s.exits[e]? with
  | some .closed =>
    some { s with exits := s.exits.set e (.joining (List.range s.pool.workers.length)) }
  | some (.joining []) => some { s with exits := s.exits.set e .returned }
  | some (.joining (w :: left)) =>
    if s.pool.workers[w]? = some .exited then
      some { s with exits := s.exits.set e (.joining left) }
    else none
  | _ => none

end WorkerExecutor

/-- One step: `__enter__`, `submit`, `stop`, the `cancel` of a future, `__exit__` up to the closing,
its next step; a worker's next critical section, the beginning and the end of its task. -/
inductive ExecutorAct where
  | enter
  | submit
  | stop
  | cancel (i : Nat)
  | exit
  | join (e : Nat)
  | loop (w : Nat)
  | begin (w : Nat)
  | finish (w : Nat) (raised : Bool)
  deriving DecidableEq, Repr

/-- The worker that takes the step. -/
def ExecutorAct.worker : ExecutorAct → Option Nat
  | .loop w => some w
  | .begin w => some w
  | .finish w _ => some w
  | _ => none

/-- One step of the executor. -/
def WorkerExecutor.step (s : WorkerExecutor) : ExecutorAct → Option WorkerExecutor
  | .enter => s.stepPool .enter
  | .submit => s.submit
  | .stop => s.stepPool .stop
  | .cancel i =>
    some { s with tasks := s.tasks.modify i fun t => { t with future := t.future.cancel } }
  | .exit => ({ s with exits := s.exits ++ [ExitCall.closed] }).stepPool .exit
  | .join e => s.join e
  | .loop w => s.loop w
  | .begin w => s.begin w
  | .finish w raised => s.finish w raised

/-- A `WorkerExecutor` with any number of callers. -/
def executor : Lts WorkerExecutor ExecutorAct where
  init s := s = .start
  step := WorkerExecutor.step

end LocalPost.Threadtools.Executor
