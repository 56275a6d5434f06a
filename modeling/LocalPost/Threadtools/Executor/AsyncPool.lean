import LocalPost.Threadtools.Executor.Pool
import Mathlib.Logic.Function.Basic

/-!
# The condition lock of `AsyncWorkerExecutor` and the event loop

`AsyncWorkerExecutor._spawn_worker` goes through `Portal.run_sync`: a direct call on the loop
thread, a call that blocks until the loop thread has run it on any other thread. `submit` holds the
condition lock meanwhile, so off the loop its critical section is two steps, with the lock held in
between; all other critical sections are one step. The loop thread runs portal calls only while it
is not itself inside an executor call.

`Deadlocked` is the cycle of the loop thread in the acquire of the lock and a submitter that holds
it and waits for the loop. `async_pool_no_deadlock` gives the exact condition for runs without it,
`async_pool_deadlock` is a run into it, and `deadlocked_forever` says that no step leads out again.
-/

set_option autoImplicit false

namespace LocalPost.Threadtools.Executor

open LocalPost.Core

universe u

/-- The executor calls of the loop thread; `submit` with the outcome of `start_soon`, should it need
a worker. -/
inductive LoopOp (τ : Type u) where
  | submit (task : τ) (started : Bool)
  | stop
  | aexit
  deriving DecidableEq, Repr

/-- The executor calls of the other threads. -/
inductive CallerOp (τ : Type u) where
  | submit (task : τ)
  | stop
  deriving DecidableEq, Repr

/-- Where a thread other than the loop thread stands: outside, in the acquire of the lock, inside
`submit` while its spawn call has not run yet, after it has run (and raised, or not), inside `stop`
while its cancel call has not run yet. -/
inductive Caller (τ : Type u) where
  | out
  | acquiring (op : CallerOp τ)
  | spawning
  | spawned (ok : Bool)
  | cancelling
  deriving DecidableEq, Repr

/-- One step: `__aenter__`, the loop thread calls the executor, the loop thread gets the lock and
runs its critical section, another thread calls, another thread goes on, the loop runs the spawn or
the cancel call of a thread, a worker runs its critical section, a task ends. -/
inductive AsyncAct (τ : Type u) where
  | aenter
  | loopCall (op : LoopOp τ)
  | loopRun
  | call (t : Nat) (op : CallerOp τ)
  | run (t : Nat)
  | spawn (t : Nat) (ok : Bool)
  | cancel (t : Nat)
  | loop (w : Nat)
  | finish (w : Nat)
  deriving DecidableEq, Repr

/-- The executor, its workers, the thread that holds the lock across its spawn call, the executor
call the loop thread is in, the other threads, and the cancel scope of the task group. -/
structure AsyncPool (τ : Type u) where
  pool : Pool τ
  lock : Option Nat
  loop : Option (LoopOp τ)
  callers : Nat → Caller τ
  cancelled : Bool

namespace PoolState

variable {τ : Type u}

/-- The part of `submit` before `_spawn_worker` returns. -/
def enqueue (st : PoolState τ) (task : τ) : PoolState τ := { st with queue := st.queue ++ [task] }

/-- The part of `submit` after `_spawn_worker` has returned. -/
def spawned (st : PoolState τ) : PoolState τ :=
  { st with workerCount := st.workerCount + 1, cond := st.cond.notify }

/-- The two parts of `submit` are `submit`. -/
theorem submit_eq_spawned {st : PoolState τ} {task : τ} (hopen : st.opened = true)
    (hclosed : st.closed = false) (hidle : st.idle = 0) :
    st.submit task true = ((st.enqueue task).spawned, .accepted true) := by
  rw [submit_open hopen hclosed, if_pos hidle]
  rfl

end PoolState

namespace AsyncPool

variable {τ : Type u}

/-- An executor that has not been entered. -/
def start : AsyncPool τ := ⟨.start, none, none, fun _ => .out, false⟩

/-- `submit` needs a new worker. -/
def needsWorker (st : PoolState τ) : Bool := st.opened && !st.closed && st.idle = 0

/-- Thread `t` moves to `c`. -/
def goto (s : AsyncPool τ) (t : Nat) (c : Caller τ) : AsyncPool τ :=
  { s with callers := Function.update s.callers t c }

@[simp] theorem goto_callers_self (s : AsyncPool τ) (t : Nat) (c : Caller τ) :
    (s.goto t c).callers t = c := Function.update_self ..

theorem goto_callers_of_ne (s : AsyncPool τ) {t u : Nat} (h : u ≠ t) (c : Caller τ) :
    (s.goto t c).callers u = s.callers u := Function.update_of_ne h ..

/-- The loop thread calls the executor; `stop` returns at once when the executor was not opened. -/
def loopCall (s : AsyncPool τ) (op : LoopOp τ) : Option (AsyncPool τ) :=
  match s.loop, op with
  | some _, _ => none
  | none, .stop => if s.pool.st.opened then some { s with loop := some .stop } else some s
  | none, op => some { s with loop := some op }

/-- The loop thread gets the lock. Its spawn and cancel calls are direct. -/
def loopRun (s : AsyncPool τ) : Option (AsyncPool τ) :=
  match s.lock, s.loop with
  | none, some (.submit task started) =>
    (s.pool.step (.submit task started)).map fun pool => { s with pool := pool, loop := none }
  | none, some .stop =>
    let (st, first) := s.pool.st.markClosed
    some { s with
      pool := ⟨st, s.pool.workers⟩, loop := none, cancelled := s.cancelled || first }
  | none, some .aexit =>
    some { s with pool := ⟨s.pool.st.markClosed.1, s.pool.workers⟩, loop := none }
  | _, _ => none

/-- Another thread calls the executor. -/
def call (s : AsyncPool τ) (t : Nat) (op : CallerOp τ) : Option (AsyncPool τ) :=
  match s.callers t, op with
  | .out, .stop => if s.pool.st.opened then some (s.goto t (.acquiring .stop)) else some s
  | .out, op => some (s.goto t (.acquiring op))
  | _, _ => none

/-- Thread `t` goes on: it gets the lock and runs its block, up to the spawn call if it needs a
worker, or it finishes its `submit` after the spawn call and releases the lock. -/
def run (s : AsyncPool τ) (t : Nat) : Option (AsyncPool τ) :=
  match s.callers t with
  | .acquiring (.submit task) =>
    if s.lock.isSome then none
    else if needsWorker s.pool.st then
      some ({ s with
        pool := ⟨s.pool.st.enqueue task, s.pool.workers⟩, lock := some t }.goto t .spawning)
    else
      some ({ s with
        pool := ⟨(s.pool.st.submit task true).1, s.pool.workers⟩ }.goto t .out)
  | .acquiring .stop =>
    if s.lock.isSome then none
    else
      let (st, first) := s.pool.st.markClosed
      some ({ s with
        pool := ⟨st, s.pool.workers⟩ }.goto t (if first then .cancelling else .out))
  | .spawned true =>
    some ({ s with pool := ⟨s.pool.st.spawned, s.pool.workers⟩, lock := none }.goto t .out)
  | .spawned false => some ({ s with lock := none }.goto t .out)
  | _ => none

/-- One step of the executor. The portal runs a call only on a loop thread that is free. -/
def step (s : AsyncPool τ) : AsyncAct τ → Option (AsyncPool τ)
  | .aenter => (s.pool.step .enter).map fun pool => { s with pool := pool }
  | .loopCall op => s.loopCall op
  | .loopRun => s.loopRun
  | .call t op => s.call t op
  | .run t => s.run t
  | .spawn t ok =>
    match s.loop, s.callers t with
    | none, .spawning =>
      some ({ s with
        pool := ⟨s.pool.st, if ok then s.pool.workers ++ [Worker.top] else s.pool.workers⟩ }.goto t
          (.spawned ok))
    | _, _ => none
  | .cancel t =>
    match s.loop, s.callers t with
    | none, .cancelling => some ({ s with cancelled := true }.goto t .out)
    | _, _ => none
  | .loop w =>
    if s.lock.isSome then none
    else (s.pool.loop w).map fun pool => { s with pool := pool }
  | .finish w => (s.pool.step (.finish w)).map fun pool => { s with pool := pool }

end AsyncPool

/-- An executor with any number of threads. -/
def asyncSystem (τ : Type u) : Lts (AsyncPool τ) (AsyncAct τ) where
  init s := s = AsyncPool.start
  step := AsyncPool.step

section Deadlock

variable {τ : Type u}

/-- The loop thread is in the acquire of the lock, and the thread that holds it waits for the loop
thread to run its spawn call. -/
def Deadlocked (s : AsyncPool τ) : Prop :=
  ∃ op t, s.loop = some op ∧ s.lock = some t ∧ s.callers t = .spawning

/-- No deadlock. -/
def NotDeadlocked (s : AsyncPool τ) : Prop := ¬Deadlocked s

/-- The condition on a step: the loop thread begins no executor call that takes the lock while a
submitter waits for its spawn call, and no submitter that needs a new worker gets the lock while the
loop thread is in the acquire. -/
def KeepsLoopFree (s : AsyncPool τ) : AsyncAct τ → Prop
  | .loopCall op => (op = .stop ∧ s.pool.st.opened = false) ∨
      ∀ t, s.lock = some t → s.callers t ≠ .spawning
  | .run t => ∀ task, s.callers t = .acquiring (.submit task) →
      AsyncPool.needsWorker s.pool.st = true → s.loop = none
  | _ => True

variable {s s' : AsyncPool τ}

theorem notDeadlocked_of_loop (h : s.loop = none) : NotDeadlocked s := by
  rintro ⟨op, t, hloop, -⟩
  rw [h] at hloop
  cases hloop

theorem notDeadlocked_of_lock (h : s.lock = none) : NotDeadlocked s := by
  rintro ⟨op, t, -, hlock, -⟩
  rw [h] at hlock
  cases hlock

/-- A thread that moves anywhere but into its spawn call creates no deadlock. -/
theorem notDeadlocked_goto {t : Nat} {c : Caller τ} {pool : Pool τ} {cancelled : Bool}
    (hP : NotDeadlocked s) (hc : c ≠ .spawning) :
    NotDeadlocked ({ s with pool := pool, cancelled := cancelled }.goto t c) := by
  rintro ⟨op, u, hloop, hlock, hu⟩
  by_cases hut : u = t
  · subst hut
    rw [AsyncPool.goto_callers_self] at hu
    exact hc hu
  · rw [AsyncPool.goto_callers_of_ne _ hut] at hu
    exact hP ⟨op, u, hloop, hlock, hu⟩

/-- The loop thread runs into a deadlock exactly when a submitter waits for it. -/
theorem loopCall_notDeadlocked (hP : NotDeadlocked s) {op : LoopOp τ}
    (h : s.loopCall op = some s') : NotDeadlocked s' ↔ KeepsLoopFree s (.loopCall op) := by
  -- the loop has just blocked, so a deadlock is up to the holder of the lock
  have hblocked : ∀ op : LoopOp τ, NotDeadlocked { s with loop := some op } ↔
      ∀ t, s.lock = some t → s.callers t ≠ .spawning := by
    intro op
    constructor
    · intro hnot t hlock hspawn
      exact hnot ⟨op, t, rfl, hlock, hspawn⟩
    · rintro hfree ⟨-, t, -, hlock, hspawn⟩
      exact hfree t hlock hspawn
  unfold AsyncPool.loopCall at h
  cases hloop : s.loop with
  | some op' => simp [hloop] at h
  | none =>
    cases op with
    -- a stop before the executor was entered does nothing
    | stop =>
      simp only [hloop] at h
      cases hopen : s.pool.st.opened with
      | true =>
        rw [hopen, if_pos rfl] at h
        cases h
        rw [hblocked]
        simp [KeepsLoopFree, hopen]
      | false =>
        rw [hopen, if_neg (by simp)] at h
        cases h
        exact ⟨fun _ => Or.inl ⟨rfl, hopen⟩, fun _ => hP⟩
    | submit task started =>
      simp only [hloop] at h
      cases h
      rw [hblocked]
      simp [KeepsLoopFree]
    | aexit =>
      simp only [hloop] at h
      cases h
      rw [hblocked]
      simp [KeepsLoopFree]

/-- After its critical section the loop thread is free. -/
theorem loopRun_notDeadlocked (h : s.loopRun = some s') : NotDeadlocked s' := by
  apply notDeadlocked_of_loop
  unfold AsyncPool.loopRun at h
  split at h
  · obtain ⟨pool, -, rfl⟩ := Option.map_eq_some_iff.1 h
    rfl
  · cases h
    rfl
  · cases h
    rfl
  · cases h

/-- A call begins no deadlock. -/
theorem call_notDeadlocked (hP : NotDeadlocked s) {t : Nat} {op : CallerOp τ}
    (h : s.call t op = some s') : NotDeadlocked s' := by
  unfold AsyncPool.call at h
  split at h
  · split at h
    · cases h
      exact notDeadlocked_goto hP (by simp)
    · cases h
      exact hP
  · cases h
    exact notDeadlocked_goto hP (by simp)
  · cases h

/-- Another thread runs into a deadlock exactly when it takes the lock for a `submit` that needs a
worker while the loop thread is in the acquire. -/
theorem run_notDeadlocked {t : Nat} (h : s.run t = some s') :
    NotDeadlocked s' ↔ KeepsLoopFree s (.run t) := by
  unfold AsyncPool.run at h
  unfold KeepsLoopFree
  split at h
  -- the submit that needs a worker takes the lock and will ask the loop for it
  · rename_i task hpc
    split at h
    · cases h
    · split at h
      · rename_i hneeds
        cases h
        constructor
        -- with the loop in a call of its own this is the deadlock
        · intro hnot _ _ _
          by_contra hloop
          obtain ⟨op, hop⟩ := Option.ne_none_iff_exists'.1 hloop
          exact hnot ⟨op, t, hop, rfl, AsyncPool.goto_callers_self ..⟩
        · intro hfree
          exact notDeadlocked_of_loop (hfree task hpc hneeds)
      · rename_i hlock hneeds
        cases h
        have hnone : s.lock = none := by simpa using hlock
        exact ⟨fun _ _ _ hneeds' => absurd hneeds' hneeds, fun _ => notDeadlocked_of_lock hnone⟩
  -- any other caller releases the lock, or never has it
  · rename_i hpc
    split at h
    · cases h
    · rename_i hlock
      cases h
      have hnone : s.lock = none := by simpa using hlock
      refine ⟨fun _ task htask => ?_, fun _ => notDeadlocked_of_lock hnone⟩
      rw [hpc] at htask
      cases htask
  · rename_i hpc
    cases h
    refine ⟨fun _ task htask => ?_, fun _ => notDeadlocked_of_lock rfl⟩
    rw [hpc] at htask
    cases htask
  · rename_i hpc
    cases h
    refine ⟨fun _ task htask => ?_, fun _ => notDeadlocked_of_lock rfl⟩
    rw [hpc] at htask
    cases htask
  · cases h

/-- A step leads to a state without deadlock exactly when it is taken under the condition. -/
theorem step_notDeadlocked (hP : NotDeadlocked s) {a : AsyncAct τ}
    (h : (asyncSystem τ).step s a = some s') : NotDeadlocked s' ↔ KeepsLoopFree s a := by
  -- Only the loop's own calls and the submits of threads can bring the deadlock about.
  cases a with
  | aenter =>
    obtain ⟨pool, -, rfl⟩ := Option.map_eq_some_iff.1 h
    exact ⟨fun _ => trivial, fun _ => hP⟩
  | loopCall op => exact loopCall_notDeadlocked hP h
  | loopRun => exact ⟨fun _ => trivial, fun _ => loopRun_notDeadlocked h⟩
  | call t op => exact ⟨fun _ => trivial, fun _ => call_notDeadlocked hP h⟩
  | run t => exact run_notDeadlocked h
  | spawn t ok =>
    refine ⟨fun _ => trivial, fun _ => ?_⟩
    simp only [asyncSystem, AsyncPool.step] at h
    split at h
    · rename_i hloop _
      cases h
      exact notDeadlocked_of_loop hloop
    · cases h
  | cancel t =>
    refine ⟨fun _ => trivial, fun _ => ?_⟩
    simp only [asyncSystem, AsyncPool.step] at h
    split at h
    · rename_i hloop _
      cases h
      exact notDeadlocked_of_loop hloop
    · cases h
  | loop w =>
    refine ⟨fun _ => trivial, fun _ => ?_⟩
    simp only [asyncSystem, AsyncPool.step] at h
    split at h
    · cases h
    · obtain ⟨pool, -, rfl⟩ := Option.map_eq_some_iff.1 h
      exact hP
  | finish w =>
    obtain ⟨pool, -, rfl⟩ := Option.map_eq_some_iff.1 h
    exact ⟨fun _ => trivial, fun _ => hP⟩

/-- In a run of the executor a deadlock is never reached exactly when every step keeps the loop
thread free for the submitters that wait for it. -/
theorem async_pool_no_deadlock {as : List (AsyncAct τ)}
    (hrun : (asyncSystem τ).exec AsyncPool.start as = some s) :
    (asyncSystem τ).Throughout NotDeadlocked AsyncPool.start as ↔
      (asyncSystem τ).Meets KeepsLoopFree AsyncPool.start as :=
  Lts.throughout_iff_meets (I := fun _ => True) (fun _ _ _ _ _ => trivial)
    (fun _ _ _ _ hP hstep => step_notDeadlocked hP hstep) trivial (notDeadlocked_of_loop rfl) hrun

/-! ## A deadlock lasts -/

/-- Only the thread that holds the lock is in its spawn call or behind it. -/
def LockHeld (s : AsyncPool τ) : Prop :=
  ∀ t, s.callers t = .spawning ∨ (∃ ok, s.callers t = .spawned ok) → s.lock = some t

/-- A caller that does not come to its spawn call needs no lock. -/
theorem lockHeld_goto {t : Nat} {c : Caller τ} {pool : Pool τ} {cancelled : Bool}
    (hL : LockHeld s) (hc : c ≠ .spawning ∧ ∀ ok, c ≠ .spawned ok) :
    LockHeld ({ s with pool := pool, cancelled := cancelled }.goto t c) := by
  intro u hu
  by_cases hut : u = t
  · subst hut
    rw [AsyncPool.goto_callers_self] at hu
    rcases hu with hu | ⟨ok, hu⟩
    · exact absurd hu hc.1
    · exact absurd hu (hc.2 ok)
  · rw [AsyncPool.goto_callers_of_ne _ hut] at hu
    exact hL u hu

/-- The thread that held the lock leaves: nobody is in a spawn call. -/
theorem lockHeld_release {t : Nat} {pool : Pool τ} (hL : LockHeld s)
    (ht : ∃ ok, s.callers t = .spawned ok) :
    LockHeld ({ s with pool := pool, lock := none }.goto t .out) := by
  intro u hu
  by_cases hut : u = t
  · subst hut
    rw [AsyncPool.goto_callers_self] at hu
    rcases hu with hu | ⟨ok, hu⟩ <;> cases hu
  · rw [AsyncPool.goto_callers_of_ne _ hut] at hu
    have hlock := (hL u hu).symm.trans (hL t (Or.inr ht))
    exact absurd (Option.some.inj hlock) hut

/-- A turn of a caller leaves the lock with the one that spawns. -/
theorem run_lockHeld (hL : LockHeld s) {t : Nat} (h : s.run t = some s') : LockHeld s' := by
  unfold AsyncPool.run at h
  split at h
  · rename_i task hpc
    split at h
    · cases h
    · rename_i hlock
      have hnone : s.lock = none := by simpa using hlock
      split at h
      · cases h
        intro u hu
        -- the caller has just taken the lock
        by_cases hut : u = t
        · subst hut
          rfl
        · rw [AsyncPool.goto_callers_of_ne _ hut] at hu
          have hheld := hL u hu
          rw [hnone] at hheld
          cases hheld
      · cases h
        exact lockHeld_goto hL (by simp)
  · split at h
    · cases h
    · cases h
      refine lockHeld_goto hL ?_
      split <;> simp
  -- it has come back from the loop, and releases the lock
  · rename_i hpc
    cases h
    exact lockHeld_release hL ⟨true, hpc⟩
  · rename_i hpc
    cases h
    exact lockHeld_release hL ⟨false, hpc⟩
  · cases h

/-- Every step leaves the lock with the one that spawns. -/
theorem step_lockHeld (hL : LockHeld s) {a : AsyncAct τ}
    (h : (asyncSystem τ).step s a = some s') : LockHeld s' := by
  cases a with
  | aenter =>
    obtain ⟨pool, -, rfl⟩ := Option.map_eq_some_iff.1 h
    exact hL
  -- The event loop is no caller: its steps leave every call where it is.
  | loopCall op =>
    simp only [asyncSystem, AsyncPool.step, AsyncPool.loopCall] at h
    split at h
    · cases h
    · split at h <;> cases h <;> exact hL
    · cases h
      exact hL
  | loopRun =>
    simp only [asyncSystem, AsyncPool.step, AsyncPool.loopRun] at h
    split at h
    · obtain ⟨pool, -, rfl⟩ := Option.map_eq_some_iff.1 h
      exact hL
    · cases h
      exact hL
    · cases h
      exact hL
    · cases h
  | call t op =>
    simp only [asyncSystem, AsyncPool.step, AsyncPool.call] at h
    split at h
    · split at h
      · cases h
        exact lockHeld_goto hL (by simp)
      · cases h
        exact hL
    · cases h
      exact lockHeld_goto hL (by simp)
    · cases h
  | run t => exact run_lockHeld hL h
  | spawn t ok =>
    simp only [asyncSystem, AsyncPool.step] at h
    split at h
    · rename_i hpc
      cases h
      intro u hu
      -- The spawning thread held the lock and keeps it.
      by_cases hut : u = t
      · subst hut
        exact hL u (Or.inl hpc)
      · rw [AsyncPool.goto_callers_of_ne _ hut] at hu
        exact hL u hu
    · cases h
  | cancel t =>
    simp only [asyncSystem, AsyncPool.step] at h
    split at h
    · cases h
      exact lockHeld_goto hL (by simp)
    · cases h
  | loop w =>
    simp only [asyncSystem, AsyncPool.step] at h
    split at h
    · cases h
    · obtain ⟨pool, -, rfl⟩ := Option.map_eq_some_iff.1 h
      exact hL
  | finish w =>
    obtain ⟨pool, -, rfl⟩ := Option.map_eq_some_iff.1 h
    exact hL

/-- A deadlock survives every step: what is still possible happens elsewhere. -/
theorem step_deadlocked (hL : LockHeld s) (hD : Deadlocked s) {a : AsyncAct τ}
    (h : (asyncSystem τ).step s a = some s') : Deadlocked s' := by
  obtain ⟨op, t, hloop, hlock, hspawn⟩ := hD
  -- the two are somebody else, so nothing about them has changed
  have hgoto : ∀ (u : Nat) (c : Caller τ), s.callers u ≠ .spawning →
      Deadlocked (s.goto u c) := by
    intro u c hu
    have htu : t ≠ u := by
      rintro rfl
      exact hu hspawn
    exact ⟨op, t, hloop, hlock, (AsyncPool.goto_callers_of_ne s htu c).trans hspawn⟩
  cases a with
  | aenter =>
    obtain ⟨pool, -, rfl⟩ := Option.map_eq_some_iff.1 h
    exact ⟨op, t, hloop, hlock, hspawn⟩
  -- the loop is blocked, and whoever needs the lock waits for the spawning thread
  | loopCall op' => simp [asyncSystem, AsyncPool.step, AsyncPool.loopCall, hloop] at h
  | loopRun => simp [asyncSystem, AsyncPool.step, AsyncPool.loopRun, hlock] at h
  | call u op' =>
    simp only [asyncSystem, AsyncPool.step, AsyncPool.call] at h
    split at h
    · rename_i hpc
      split at h
      · cases h
        exact hgoto u _ (by simp [hpc])
      · cases h
        exact ⟨op, t, hloop, hlock, hspawn⟩
    · rename_i hpc _
      cases h
      exact hgoto u _ (by simp [hpc])
    · cases h
  | run u =>
    simp only [asyncSystem, AsyncPool.step, AsyncPool.run] at h
    split at h
    · simp [hlock] at h
    · simp [hlock] at h
    · rename_i hpc
      -- only the holder of the lock could come back from the loop, and it is still spawning
      have hu := hL u (Or.inr ⟨true, hpc⟩)
      rw [hlock] at hu
      cases hu
      rw [hpc] at hspawn
      cases hspawn
    · rename_i hpc
      have hu := hL u (Or.inr ⟨false, hpc⟩)
      rw [hlock] at hu
      cases hu
      rw [hpc] at hspawn
      cases hspawn
    · cases h
  | spawn u ok => simp [asyncSystem, AsyncPool.step, hloop] at h
  | cancel u => simp [asyncSystem, AsyncPool.step, hloop] at h
  | loop w => simp [asyncSystem, AsyncPool.step, hlock] at h
  | finish w =>
    obtain ⟨pool, -, rfl⟩ := Option.map_eq_some_iff.1 h
    exact ⟨op, t, hloop, hlock, hspawn⟩

/-- No continuation of a run that has reached a deadlock leaves it. -/
theorem deadlocked_forever (hreach : (asyncSystem τ).Reachable s) (hD : Deadlocked s)
    {as : List (AsyncAct τ)} (hrun : (asyncSystem τ).exec s as = some s') : Deadlocked s' := by
  have hL : LockHeld s := by
    refine Lts.invariant (fun r hr t ht => ?_) (fun r a u hr hstep => step_lockHeld hr hstep) hreach
    rw [hr] at ht
    rcases ht with ht | ⟨ok, ht⟩ <;> cases ht
  have hboth : ∀ r a u, (LockHeld r ∧ Deadlocked r) → (asyncSystem τ).step r a = some u →
      LockHeld u ∧ Deadlocked u :=
    fun r a u hr hstep => ⟨step_lockHeld hr.1 hstep, step_deadlocked hr.1 hr.2 hstep⟩
  exact (Lts.exec_invariant hboth ⟨hL, hD⟩ hrun).2

/-- The loop thread calls only while the lock is free, the others go on only while it is free. -/
def TakesTurns (s : AsyncPool τ) : AsyncAct τ → Bool
  | .loopCall _ => s.lock.isNone
  | .run _ => s.loop.isNone
  | _ => true

theorem keepsLoopFree_of_takesTurns {a : AsyncAct τ} (h : TakesTurns s a = true) :
    KeepsLoopFree s a := by
  cases a with
  | loopCall op =>
    refine Or.inr fun t ht => ?_
    rw [TakesTurns, ht] at h
    cases h
  | run t => exact fun _ _ _ => Option.isNone_iff_eq_none.1 h
  | _ => trivial

/-- A submitter gets its worker from a free loop thread, which then stops the executor. -/
def submitThenStop : List (AsyncAct Nat) :=
  [.aenter, .call 1 (.submit 10), .run 1, .spawn 1 true, .run 1, .loopCall .stop, .loopRun]

theorem async_pool_no_deadlock_submitThenStop :
    (asyncSystem Nat).Throughout NotDeadlocked AsyncPool.start submitThenStop := by
  have hrun : ((asyncSystem Nat).exec AsyncPool.start submitThenStop).isSome := rfl
  obtain ⟨s, hs⟩ := Option.isSome_iff_exists.1 hrun
  have hturns : (asyncSystem Nat).Meets (fun s a => TakesTurns s a = true) AsyncPool.start
      submitThenStop := by decide
  exact (async_pool_no_deadlock hs).2 (hturns.mono fun _ _ h => keepsLoopFree_of_takesTurns h)

/-- The loop thread stops the executor while a submitter waits for its worker. -/
def stopDuringSpawn : List (AsyncAct Nat) :=
  [.aenter, .call 1 (.submit 10), .run 1, .loopCall .stop]

/-- The loop thread and the submitter wait for each other, now and after whatever else happens. -/
theorem async_pool_deadlock :
    ∃ s : AsyncPool Nat, (asyncSystem Nat).Reachable s ∧ Deadlocked s ∧
      ∀ as s', (asyncSystem Nat).exec s as = some s' → Deadlocked s' := by
  have hreach := Lts.Reachable.of_isSome (M := asyncSystem Nat) rfl stopDuringSpawn rfl
  have hdead : Deadlocked (((asyncSystem Nat).exec AsyncPool.start stopDuringSpawn).get rfl) :=
    ⟨.stop, 1, rfl, rfl, rfl⟩
  exact ⟨_, hreach, hdead, fun as s' hrun => deadlocked_forever hreach hdead hrun⟩

end Deadlock

end LocalPost.Threadtools.Executor
