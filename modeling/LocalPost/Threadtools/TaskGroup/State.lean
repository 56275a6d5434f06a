import LocalPost.Core.Lts
import LocalPost.Core.ListEntries

/-!
# TaskGroup

The calls of `create_task`, the futures they get from the executor, and the `with` block. A call
takes the lock twice, for the test of `_closed` and for the append to `_tasks`; the executor's
`submit` and the registration of `_on_done` come between and behind. `__exit__` takes it once a
round to look for pending futures and once more to close the group, and reads the exceptions without
it: `f.cancelled()` and then `f.exception()`, which waits for the end of the task and raises when it
is cancelled meanwhile. Each of these is a step, as are the start and the end of a task, the
`cancel` of a future and the run of a callback.

The calls are numbered in the order in which they begin, and a future has the number of its call:
what is in `_tasks` are such numbers. An exception is its identity. A task, the body and threads
that are neither may call `create_task`, also several times at once; a task and the body come to
their ends behind their calls. The block is entered once.
-/

set_option autoImplicit false

namespace LocalPost.Threadtools.TaskGroup

open LocalPost.Core

/-- An exception object. -/
abbrev Exc := Nat

/-- A `concurrent.futures.Future`. -/
inductive Future where
  | pending
  | running
  | cancelled
  | cancelledAndNotified
  | finished (exception : Option Exc)
  deriving DecidableEq, Repr

namespace Future

/-- `Future.done`. -/
def done : Future → Bool
  | .pending => false
  | .running => false
  | _ => true

/-- What `wait` counts as done: not yet a cancelled future that the executor has not met. -/
def notified : Future → Bool
  | .cancelledAndNotified => true
  | .finished _ => true
  | _ => false

/-- `Future.cancelled`. -/
def isCancelled : Future → Bool
  | .cancelled => true
  | .cancelledAndNotified => true
  | _ => false

/-- `f.exception()` of a future that is done and not cancelled. -/
def exception : Future → Option Exc
  | .finished e => e
  | _ => none

/-- `Future.cancel`. -/
def cancel : Future → Future
  | .pending => .cancelled
  | f => f

end Future

/-- Who calls `create_task`: the body of the block, the task of another call, any other thread. -/
inductive Caller where
  | body
  | member (i : Nat)
  | foreign
  deriving DecidableEq, Repr

/-- How the executor's `submit` ends: with a future, or it raises, without the task or with it left
in the queue. -/
inductive Submit where
  | accepted
  | refused
  | queued
  deriving DecidableEq, Repr

/-- Where a call of `create_task` stands: before its first look at the group, before `submit`,
before the append, before `add_done_callback`, before the `_on_done` that this runs at once, at its
end. -/
inductive Phase where
  | checking
  | submitting
  | appending
  | hooking
  | notifying
  | returned
  | raised
  deriving DecidableEq, Repr

namespace Phase

/-- The call has not ended. -/
def inProgress : Phase → Bool
  | .returned => false
  | .raised => false
  | _ => true

/-- The call has not submitted its task. -/
def unsubmitted : Phase → Bool
  | .checking => true
  | .submitting => true
  | _ => false

/-- The call has got its future. -/
def submitted : Phase → Bool
  | .appending => true
  | .hooking => true
  | .notifying => true
  | .returned => true
  | _ => false

/-- The call has appended its future. -/
def registered : Phase → Bool
  | .hooking => true
  | .notifying => true
  | .returned => true
  | _ => false

/-- The call has passed the test of `_closed` and has not appended its future. -/
def unregistered : Phase → Bool
  | .submitting => true
  | .appending => true
  | _ => false

end Phase

/-- A call of `create_task`, with the future of its task and whether `_on_done` waits on it. -/
structure Call where
  caller : Caller
  phase : Phase
  future : Option Future
  hooked : Bool
  deriving DecidableEq, Repr

namespace Call

/-- The future of a task of the group. When `submit` has raised, the task in the queue is none. -/
def task (k : Call) : Option Future :=
  if k.phase = .raised then none else k.future

/-- The exception of a task of the group. -/
def failure (k : Call) : Option Exc := k.task.bind Future.exception

end Call

/-- Where the `with` block stands; `exc` is the exception of the body. `__exit__` looks for pending
futures, waits for those it found, closes the group, reads the exceptions of what it found in
`_tasks`, standing in the `exception()` of one that was not cancelled, and is over: it has returned
or raised the group, or the `CancelledError` of that call has come out of it. -/
inductive Block where
  | outside
  | body
  | draining (exc : Option Exc)
  | waiting (exc : Option Exc) (pending : List Nat)
  | closing (exc : Option Exc)
  | collecting (exc : Option Exc) (failed : List Nat) (allErrors : List Exc)
  | asking (exc : Option Exc) (c : Nat) (failed : List Nat) (allErrors : List Exc)
  | left (exc : Option Exc) (group : Option (List Exc))
  | interrupted (exc : Option Exc)
  deriving DecidableEq, Repr

/-- The block has been left. -/
def Block.over : Block → Bool
  | .left _ _ => true
  | .interrupted _ => true
  | _ => false

/-- The group, its calls and its block. -/
structure Group where
  tasks : List Nat
  opened : Bool
  closed : Bool
  calls : List Call
  block : Block
  deriving DecidableEq, Repr

/-- One step: `__enter__`; of a call: its beginning, its first critical section, `submit`, the
append, `add_done_callback`, an `_on_done` that this runs; of a future: the start and the end of its
task, `cancel`, a callback; of the block: the end of the body, and the steps of `__exit__`. -/
inductive Act where
  | enter
  | call (caller : Caller)
  | check (c : Nat)
  | submit (c : Nat) (out : Submit)
  | append (c : Nat)
  | hook (c : Nat)
  | notify (c : Nat)
  | begin (c : Nat)
  | finish (c : Nat) (exception : Option Exc)
  | cancel (c : Nat)
  | callback (c : Nat)
  | exit (exc : Option Exc)
  | drain
  | wake
  | close
  | collect
  | ask
  | conclude
  deriving DecidableEq, Repr

namespace Group

/-- The future of call `c`. -/
def futureAt (s : Group) (c : Nat) : Option Future := (s.calls[c]?).bind Call.future

/-- The future of call `c` is not done. -/
def undone (s : Group) (c : Nat) : Bool := (s.futureAt c).any fun f => !f.done

/-- A call by this caller has not ended. -/
def calling (s : Group) (caller : Caller) : Bool :=
  s.calls.any fun k => decide (k.caller = caller) && k.phase.inProgress

/-- `create_task` may be called by `caller`: a task calls while it runs. -/
def mayCall (s : Group) : Caller → Bool
  | .body => decide (s.block = .body)
  | .member i => decide ((s.calls[i]?).bind Call.task = some .running)
  | .foreign => true

/-- `_on_done` for the future of call `c`. -/
def onDone (s : Group) (c : Nat) (k : Call) : List Nat :=
  if k.future = some (.finished none) then s.tasks.erase c else s.tasks

/-! ## The steps of a call and of its future -/

/-- The first critical section. -/
def check (s : Group) (k : Call) : Option (Call × List Nat) :=
  match k.phase with
  | .checking =>
    some ({ k with phase := if s.closed || !s.opened then .raised else .submitting }, s.tasks)
  | _ => none

/-- `self._executor.submit`. -/
def submit (s : Group) (out : Submit) (k : Call) : Option (Call × List Nat) :=
  match k.phase, out with
  | .submitting, .accepted =>
    some ({ k with phase := .appending, future := some .pending }, s.tasks)
  | .submitting, .refused => some ({ k with phase := .raised }, s.tasks)
  | .submitting, .queued => some ({ k with phase := .raised, future := some .pending }, s.tasks)
  | _, _ => none

/-- The second critical section. -/
def append (s : Group) (c : Nat) (k : Call) : Option (Call × List Nat) :=
  match k.phase with
  | .appending => some ({ k with phase := .hooking }, s.tasks ++ [c])
  | _ => none

/-- `fut.add_done_callback(self._on_done)`. -/
def hook (s : Group) (k : Call) : Option (Call × List Nat) :=
  match k.phase with
  | .hooking =>
    if k.future.any Future.done then some ({ k with phase := .notifying }, s.tasks)
    else some ({ k with phase := .returned, hooked := true }, s.tasks)
  | _ => none

/-- The `_on_done` of a future that was done before. -/
def notify (s : Group) (c : Nat) (k : Call) : Option (Call × List Nat) :=
  match k.phase with
  | .notifying => some ({ k with phase := .returned }, s.onDone c k)
  | _ => none

/-- The executor takes up the task: `set_running_or_notify_cancel`. -/
def begin (s : Group) (k : Call) : Option (Call × List Nat) :=
  match k.future with
  | some .pending => some ({ k with future := some .running }, s.tasks)
  | some .cancelled => some ({ k with future := some .cancelledAndNotified }, s.tasks)
  | _ => none

/-- The function returns or raises. -/
def finish (s : Group) (c : Nat) (exception : Option Exc) (k : Call) : Option (Call × List Nat) :=
  match k.future with
  | some .running =>
    if s.calling (.member c) then none
    else some ({ k with future := some (.finished exception) }, s.tasks)
  | _ => none

/-- `fut.cancel()`. -/
def cancel (s : Group) (k : Call) : Option (Call × List Nat) :=
  match k.future with
  | some f => some ({ k with future := some f.cancel }, s.tasks)
  | none => none

/-- The callbacks of a future run behind its end. -/
def callback (s : Group) (c : Nat) (k : Call) : Option (Call × List Nat) :=
  if k.hooked && k.future.any Future.done then some ({ k with hooked := false }, s.onDone c k)
  else none

/-- Call `c` and `_tasks` change. -/
def update (s : Group) (c : Nat) (f : Call → Option (Call × List Nat)) : Option Group :=
  match s.calls[c]? with
  | some k => (f k).map fun out => { s with calls := s.calls.set c out.1, tasks := out.2 }
  | none => none

/-! ## The steps of the block -/

/-- `__enter__`. -/
def enter (s : Group) : Option Group :=
  match s.block with
  | .outside => if s.closed then some s else some { s with opened := true, block := .body }
  | _ => none

/-- The body ends. -/
def exit (s : Group) (exc : Option Exc) : Option Group :=
  match s.block with
  | .body => if s.calling .body then none else some { s with block := .draining exc }
  | _ => none

/-- `__exit__` looks for pending futures. -/
def drain (s : Group) : Option Group :=
  match s.block with
  | .draining exc =>
    let pending := s.tasks.filter s.undone
    if pending = [] then some { s with block := .closing exc }
    else some { s with block := .waiting exc pending }
  | _ => none

/-- `wait` returns. -/
def wake (s : Group) : Option Group :=
  match s.block with
  | .waiting exc pending =>
    if pending.all fun c => (s.futureAt c).any Future.notified then
      some { s with block := .draining exc }
    else none
  | _ => none

/-- `__exit__` closes the group. -/
def close (s : Group) : Option Group :=
  match s.block with
  | .closing exc => some { s with closed := true, block := .collecting exc s.tasks [] }
  | _ => none

/-- `__exit__` looks at the next future, and goes on behind one that was cancelled. -/
def collect (s : Group) : Option Group :=
  match s.block with
  | .collecting exc (c :: failed) allErrors =>
    match s.futureAt c with
    | some f =>
      if f.isCancelled then some { s with block := .collecting exc failed allErrors }
      else some { s with block := .asking exc c failed allErrors }
    | none => none
  | _ => none

/-- The `f.exception()` of `__exit__` returns when the task has ended, and raises when it was
cancelled. -/
def ask (s : Group) : Option Group :=
  match s.block with
  | .asking exc c failed allErrors =>
    match s.futureAt c with
    | some f =>
      if f.isCancelled then some { s with block := .interrupted exc }
      else if f.done then
        some { s with block := .collecting exc failed (allErrors ++ f.exception.toList) }
      else none
    | none => none
  | _ => none

/-- The body's exception in front of the others, if it is not one of them. -/
def merged (exc : Option Exc) (allErrors : List Exc) : List Exc :=
  match exc with
  | some exc => if allErrors.all (fun e => e ≠ exc) then exc :: allErrors else allErrors
  | none => allErrors

/-- `__exit__` returns, or raises the group. -/
def conclude (s : Group) : Option Group :=
  match s.block with
  | .collecting exc [] allErrors =>
    let all := merged exc allErrors
    some { s with block := .left exc (if all = [] then none else some all) }
  | _ => none

/-- One step. -/
def step (s : Group) : Act → Option Group
  | .enter => s.enter
  | .call caller =>
    if s.mayCall caller then
      some { s with calls := s.calls ++ [⟨caller, .checking, none, false⟩] } else none
  | .check c => s.update c s.check
  | .submit c out => s.update c (s.submit out)
  | .append c => s.update c (s.append c)
  | .hook c => s.update c s.hook
  | .notify c => s.update c (s.notify c)
  | .begin c => s.update c s.begin
  | .finish c exception => s.update c (s.finish c exception)
  | .cancel c => s.update c s.cancel
  | .callback c => s.update c (s.callback c)
  | .exit exc => s.exit exc
  | .drain => s.drain
  | .wake => s.wake
  | .close => s.close
  | .collect => s.collect
  | .ask => s.ask
  | .conclude => s.conclude

/-- A group that has not been entered. -/
def start : Group := ⟨[], false, false, [], .outside⟩

end Group

/-- A group with its callers and its executor. -/
def system : Lts Group Act where
  init := fun s => s = .start
  step := Group.step

end LocalPost.Threadtools.TaskGroup
