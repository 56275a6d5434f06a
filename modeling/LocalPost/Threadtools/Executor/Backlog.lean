import LocalPost.Threadtools.Executor.Pool
import LocalPost.Core.ListEntries

/-!
# Queued tasks against free workers

A worker is free when it is not running a task. `NoBacklog` says that an open pool has at most as
many queued tasks as free workers. `submit` spawns a worker only when `_idle` is zero, but `_idle`
counts sleeping workers together with notified ones that have not taken the lock yet, so a second
`submit` can count on a worker the first one has already claimed (`pool_backlog`). `pool_no_backlog`
gives the exact condition on `submit` for whole runs.

No wake-up is lost: in every reachable state each queued task has a worker on its way or nobody
sleeps. Under `NoBacklog` the queue therefore drains by critical sections of the workers alone,
without the end of any running task (`queue_drains`).
-/

set_option autoImplicit false

namespace LocalPost.Threadtools.Executor

open LocalPost.Core

universe u

variable {τ : Type u}

/-- The worker is before its critical section. -/
def Worker.isTop : Worker τ → Bool
  | .top => true
  | _ => false

/-- The worker is inside `wait`. -/
def Worker.isWaiting : Worker τ → Bool
  | .waiting => true
  | _ => false

/-- The worker is alive and not running a task. -/
def Worker.isFree : Worker τ → Bool
  | .top => true
  | .waiting => true
  | _ => false

/-- The number of live workers that are not running a task. -/
def Pool.free (s : Pool τ) : Nat := s.workers.countP Worker.isFree

/-- The number of workers before their critical section. -/
def Pool.tops (s : Pool τ) : Nat := s.workers.countP Worker.isTop

/-- The number of workers inside `wait`. -/
def Pool.sleepers (s : Pool τ) : Nat := s.workers.countP Worker.isWaiting

/-- An open pool has at most as many queued tasks as free workers. -/
def NoBacklog (s : Pool τ) : Prop :=
  s.st.opened = true → s.st.closed = false → s.st.queue.length ≤ s.free

/-- The condition on a step: a `submit` to an open pool finds no idle worker and starts one, or
finds fewer queued tasks than free workers. -/
def SubmitFindsWorker (s : Pool τ) : Act τ → Prop
  | .submit _ started => s.st.opened = true → s.st.closed = false →
      s.st.idle = 0 ∧ started = true ∨ s.st.queue.length < s.free
  | _ => True

instance (s : Pool τ) : ∀ a, Decidable (SubmitFindsWorker s a)
  | .enter => .isTrue trivial
  | .submit _ _ => inferInstanceAs (Decidable (_ → _ → _ ∨ _))
  | .stop => .isTrue trivial
  | .exit => .isTrue trivial
  | .loop _ => .isTrue trivial
  | .finish _ => .isTrue trivial

/-- Whether the action is a `submit`. -/
def Act.submits : Act τ → Bool
  | .submit _ _ => true
  | _ => false

/-- The moves of the pool. The last argument says whether the move is that of a `submit`. -/
inductive Move (s : Pool τ) : Pool τ → Bool → Prop
  | same (b) : Move s s b
  | opens (hclosed : s.st.closed = false) :
      Move s ⟨{ s.st with opened := true }, s.workers⟩ false
  | spawns (task) (hopen : s.st.opened = true) (hclosed : s.st.closed = false)
      (hidle : s.st.idle = 0) :
      Move s ⟨{ s.st with
        queue := s.st.queue ++ [task]
        workerCount := s.st.workerCount + 1
        cond := s.st.cond.notify }, s.workers ++ [.top]⟩ true
  | spawnFails (task) (hopen : s.st.opened = true) (hclosed : s.st.closed = false)
      (hidle : s.st.idle = 0) :
      Move s ⟨{ s.st with queue := s.st.queue ++ [task] }, s.workers⟩ true
  | hands (task) (hopen : s.st.opened = true) (hclosed : s.st.closed = false)
      (hidle : s.st.idle ≠ 0) :
      Move s ⟨{ s.st with
        queue := s.st.queue ++ [task], cond := s.st.cond.notify }, s.workers⟩ true
  | closes :
      Move s ⟨{ s.st with closed := true, cond := s.st.cond.notifyAll }, s.workers⟩ false
  | takeTop (w task rest) (hw : s.workers[w]? = some .top) (hq : s.st.queue = task :: rest) :
      Move s ⟨{ s.st with queue := rest }, s.workers.set w (.running task)⟩ false
  | takeWoken (w task rest) (hw : s.workers[w]? = some .waiting) (hm : w ∉ s.st.cond.waiters)
      (hq : s.st.queue = task :: rest) :
      Move s ⟨{ s.st with
        queue := rest, idle := s.st.idle - 1, cond := s.st.cond.recheck w },
        s.workers.set w (.running task)⟩ false
  | leaveTop (w) (hw : s.workers[w]? = some .top) (hq : s.st.queue = [])
      (hclosed : s.st.closed = true) :
      Move s ⟨s.st, s.workers.set w .exited⟩ false
  | leaveWoken (w) (hw : s.workers[w]? = some .waiting) (hm : w ∉ s.st.cond.waiters)
      (hq : s.st.queue = []) (hclosed : s.st.closed = true) :
      Move s ⟨{ s.st with idle := s.st.idle - 1, cond := s.st.cond.recheck w },
        s.workers.set w .exited⟩ false
  | sleepTop (w) (hw : s.workers[w]? = some .top) (hq : s.st.queue = []) :
      Move s ⟨{ s.st with idle := s.st.idle + 1, cond := s.st.cond.wait w },
        s.workers.set w .waiting⟩ false
  | sleepWoken (w) (hw : s.workers[w]? = some .waiting) (hm : w ∉ s.st.cond.waiters)
      (hq : s.st.queue = []) :
      Move s ⟨{ s.st with cond := (s.st.cond.recheck w).wait w }, s.workers.set w .waiting⟩ false
  | finish (w task) (hw : s.workers[w]? = some (.running task)) :
      Move s ⟨s.st, s.workers.set w .top⟩ false

/-! ## Inversion of a step -/

section Inversion

variable {s s' : Pool τ}

/-- A turn of a worker is a move that takes nothing in. -/
theorem loop_move {w : Nat} (h : s.loop w = some s') : Move s s' false := by
  unfold Pool.loop at h
  split at h
  -- at the top of its loop: it takes a task, leaves, or goes to sleep
  · rename_i hw
    simp only [Option.some.injEq] at h
    subst h
    cases hq : s.st.queue with
    | cons task rest =>
      have hmove := Move.takeTop w task rest hw hq
      rw [PoolState.loopTop_cons hq]
      exact hmove
    | nil =>
      cases hclosed : s.st.closed with
      | true =>
        have hmove := Move.leaveTop w hw hq hclosed
        rw [PoolState.loopTop_closed hq hclosed]
        exact hmove
      | false =>
        have hmove := Move.sleepTop w hw hq
        rw [PoolState.loopTop_empty hq hclosed]
        exact hmove
  -- woken up: the same, behind the check of its wait
  · rename_i hw
    split at h
    · cases h
    · rename_i hm
      simp only [Option.some.injEq] at h
      subst h
      cases hq : s.st.queue with
      | cons task rest =>
        have hmove := Move.takeWoken w task rest hw hm hq
        rw [PoolState.loopWoken_cons hq]
        exact hmove
      | nil =>
        cases hclosed : s.st.closed with
        | true =>
          have hmove := Move.leaveWoken w hw hm hq hclosed
          rw [PoolState.loopWoken_closed hq hclosed]
          exact hmove
        | false =>
          have hmove := Move.sleepWoken w hw hm hq
          rw [PoolState.loopWoken_empty hq hclosed]
          exact hmove
  · cases h

theorem markClosed_move : Move s ⟨s.st.markClosed.1, s.workers⟩ false := by
  unfold PoolState.markClosed
  split
  · exact .same false
  · exact .closes

/-- A submission is a move that takes a task in. -/
theorem submit_move {task : τ} {started : Bool}
    (h : s.step (.submit task started) = some s') : Move s s' true := by
  simp only [Pool.step] at h
  by_cases hopen : s.st.opened = true ∧ s.st.closed = false
  · rw [PoolState.submit_open hopen.1 hopen.2] at h
    by_cases hidle : s.st.idle = 0
    · rw [if_pos hidle] at h
      cases started with
      | true =>
        cases h
        exact .spawns task hopen.1 hopen.2 hidle
      | false =>
        cases h
        exact .spawnFails task hopen.1 hopen.2 hidle
    · rw [if_neg hidle] at h
      cases h
      exact .hands task hopen.1 hopen.2 hidle
  · rw [PoolState.submit_notOpen hopen] at h
    cases h
    exact .same true

/-- Every step is a move. -/
theorem step_move {a : Act τ} (h : s.step a = some s') : Move s s' a.submits := by
  cases a with
  | enter =>
    -- `__enter__` on a closed executor opens nothing
    simp only [Pool.step] at h
    split at h
    · cases h
      exact .same false
    · rename_i hclosed
      cases h
      exact .opens (by simpa using hclosed)
  | submit task started => exact submit_move h
  | stop =>
    simp only [Pool.step, Option.some.injEq] at h
    subst h
    unfold PoolState.stop
    split
    · exact markClosed_move
    · exact .same false
  | exit =>
    simp only [Pool.step, Option.some.injEq] at h
    subst h
    exact markClosed_move
  | loop w => exact loop_move h
  | finish w =>
    simp only [Pool.step] at h
    split at h
    · rename_i task hw
      cases h
      exact .finish w task hw
    · cases h

end Inversion

/-! ## The invariant -/

/-- `_idle` counts the workers inside `wait`; they are the sleeping ones and the notified ones; a
pool that was never entered has no task; no wake-up is lost. -/
structure Inv (s : Pool τ) : Prop where
  idle_eq : s.st.idle = (s.sleepers : Int)
  complete : s.sleepers = s.st.cond.waiters.length + s.st.cond.woken.length
  asleep : s.st.cond.Holds (fun w => s.workers[w]? = some .waiting)
    (fun w => s.workers[w]? = some .waiting)
  somewhere : ∀ w, s.workers[w]? = some .waiting → w ∈ s.st.cond.waiters ∨ w ∈ s.st.cond.woken
  unopened : s.st.opened = false → s.st.queue = []
  covered : s.st.cond.Covered (fun _ => true) ((s.st.queue.length : Int) - s.tops)

section Counts

variable {l : List (Worker τ)} {w : Nat}

/-- The free workers are those at the top of the loop and those asleep. -/
theorem free_eq (s : Pool τ) : s.free = s.tops + s.sleepers := by
  have hall : ∀ l : List (Worker τ), l.countP Worker.isFree =
      l.countP Worker.isTop + l.countP Worker.isWaiting := by
    intro l
    induction l with
    | nil => rfl
    | cons a l ih =>
      simp only [List.countP_cons, ih]
      cases a <;> simp [Worker.isFree, Worker.isTop, Worker.isWaiting] <;> omega
  exact hall s.workers

/-- A queue of waiting workers does not hold the worker that changes. -/
theorem holds_set {c : Condition Nat} {b : Worker τ}
    (h : c.Holds (fun u => l[u]? = some .waiting) (fun u => l[u]? = some .waiting))
    (hq : w ∉ c.waiters) (hwoken : w ∉ c.woken) :
    c.Holds (fun u => (l.set w b)[u]? = some .waiting)
      (fun u => (l.set w b)[u]? = some .waiting) := by
  refine h.mono (fun u hu hS => ?_) (fun u hu hS => ?_)
  · rwa [List.getElem?_set_ne fun heq : w = u => hq (heq ▸ hu)]
  · rwa [List.getElem?_set_ne fun heq : w = u => hwoken (heq ▸ hu)]

end Counts

section Invariant

variable {s s' : Pool τ}

/-- A worker that is not inside `wait` is in neither list of the condition. -/
theorem Inv.not_mem (hi : Inv s) {w : Nat} {a : Worker τ} (hw : s.workers[w]? = some a)
    (ha : a ≠ .waiting) : w ∉ s.st.cond.waiters ∧ w ∉ s.st.cond.woken := by
  constructor
  · intro hmem
    exact ha (Option.some.inj (hw.symm.trans (hi.asleep.asleep w hmem)))
  · intro hmem
    exact ha (Option.some.inj (hw.symm.trans (hi.asleep.onWay w hmem)))

theorem Inv.mem_woken (hi : Inv s) {w : Nat} (hw : s.workers[w]? = some .waiting)
    (hm : w ∉ s.st.cond.waiters) : w ∈ s.st.cond.woken :=
  (hi.somewhere w hw).resolve_left hm

/-- A worker awake before and after its step changes only the two counts. -/
theorem Inv.awake (hi : Inv s) {w : Nat} {a b : Worker τ} (queue : List τ)
    (hw : s.workers[w]? = some a) (ha : a ≠ .waiting) (hb : b ≠ .waiting)
    (hopened : s.st.opened = false → queue = [])
    (hcount : (queue.length : Int) - (s.workers.set w b).countP Worker.isTop ≤
      s.st.queue.length - s.tops ∨ queue = []) :
    Inv ⟨{ s.st with queue := queue }, s.workers.set w b⟩ := by
  -- the worker neither sleeps nor is about to, so the sleepers are the same
  obtain ⟨hq, hwoken⟩ := hi.not_mem hw ha
  have hsleep : (s.workers.set w b).countP Worker.isWaiting = s.sleepers := by
    have hset := countP_set_add (p := Worker.isWaiting) b hw
    have ha' : a.isWaiting = false := by cases a <;> simp_all [Worker.isWaiting]
    have hb' : b.isWaiting = false := by cases b <;> simp_all [Worker.isWaiting]
    simpa [ha', hb', Pool.sleepers] using hset
  refine ⟨?_, ?_, holds_set hi.asleep hq hwoken, fun u hu => ?_, hopened, ?_⟩
  · rw [Pool.sleepers, hsleep]
    exact hi.idle_eq
  · rw [Pool.sleepers, hsleep]
    exact hi.complete
  · by_cases huw : w = u
    · subst huw
      have hlt : w < s.workers.length := (List.getElem?_eq_some_iff.1 hw).1
      rw [List.getElem?_set_self hlt] at hu
      exact absurd (Option.some.inj hu) hb
    · rw [List.getElem?_set_ne huw] at hu
      exact hi.somewhere u hu
  -- the queue is covered as before, or empty
  · rcases hcount with hle | rfl
    · exact hi.covered.mono hle
    · exact .of_nonpos (by simp)

/-- A notified worker that leaves `wait` for good. -/
theorem Inv.leavesWait (hi : Inv s) {w : Nat} {b : Worker τ} (queue : List τ)
    (hw : s.workers[w]? = some .waiting) (hm : w ∉ s.st.cond.waiters) (hb : b ≠ .waiting)
    (hopened : s.st.opened = false → queue = [])
    (hcount : (queue.length : Int) + 1 ≤ s.st.queue.length ∨ queue = []) :
    Inv ⟨{ s.st with queue := queue, idle := s.st.idle - 1, cond := s.st.cond.recheck w },
      s.workers.set w b⟩ := by
  have hmem := hi.mem_woken hw hm
  have hlt : w < s.workers.length := (List.getElem?_eq_some_iff.1 hw).1
  -- one sleeper less, and it was among the woken ones
  have hsleep : (s.workers.set w b).countP Worker.isWaiting + 1 = s.sleepers := by
    have hset := countP_set_add (p := Worker.isWaiting) b hw
    have hb' : b.isWaiting = false := by cases b <;> simp_all [Worker.isWaiting]
    simpa [Worker.isWaiting, hb', Pool.sleepers] using hset
  -- it may be at the top of its loop now, which only helps to cover the queue
  have htop : s.tops ≤ (s.workers.set w b).countP Worker.isTop := by
    have hset := countP_set_add (p := Worker.isTop) b hw
    simp only [Worker.isTop, Bool.false_eq_true, if_false, Nat.add_zero] at hset
    rw [hset]
    exact Nat.le_add_right _ _
  have hlen : (s.st.cond.woken.erase w).length + 1 = s.st.cond.woken.length := by
    have hpos := List.length_pos_of_mem hmem
    rw [List.length_erase_of_mem hmem]
    omega
  have hidle := hi.idle_eq
  have hcomplete := hi.complete
  refine ⟨?_, ?_, holds_set (hi.asleep.recheck w) hm (hi.asleep.distinct.not_mem_recheck w),
    fun u hu => ?_, hopened, ?_⟩
  · simp only [Pool.sleepers] at hsleep hidle ⊢
    omega
  · simp only [Pool.sleepers, Condition.waiters_recheck,
      Condition.woken_recheck] at hsleep hcomplete ⊢
    omega
  · by_cases huw : w = u
    · subst huw
      rw [List.getElem?_set_self hlt] at hu
      exact absurd (Option.some.inj hu) hb
    · rw [List.getElem?_set_ne huw] at hu
      refine (hi.somewhere u hu).imp_right fun hu' => ?_
      exact (List.mem_erase_of_ne (Ne.symm huw)).2 hu'
  -- one task and one woken worker less
  · rcases hcount with hle | rfl
    · refine (hi.covered.recheck w).mono ?_
      simp only [Pool.tops] at htop ⊢
      omega
    · exact .of_nonpos (by simp)

/-- A worker that goes to sleep finds the queue empty. -/
theorem Inv.sleeps (hi : Inv s) {w : Nat} (hw : s.workers[w]? = some .top)
    (hq : s.st.queue = []) :
    Inv ⟨{ s.st with idle := s.st.idle + 1, cond := s.st.cond.wait w },
      s.workers.set w .waiting⟩ := by
  have hlt : w < s.workers.length := (List.getElem?_eq_some_iff.1 hw).1
  obtain ⟨hwaiters, hwoken⟩ := hi.not_mem hw (by simp)
  have hsleep : (s.workers.set w .waiting).countP Worker.isWaiting = s.sleepers + 1 := by
    have hset := countP_set_add (p := Worker.isWaiting) .waiting hw
    simpa [Worker.isWaiting, Pool.sleepers] using hset
  have hidle := hi.idle_eq
  have hcomplete := hi.complete
  refine ⟨?_, ?_, ?_, fun u hu => ?_, hi.unopened, .of_nonpos (by simp [hq])⟩
  · simp only [Pool.sleepers] at hsleep hidle ⊢
    omega
  · simp only [Pool.sleepers, Condition.waiters_wait, Condition.woken_wait, List.length_append,
      List.length_singleton] at hsleep hcomplete ⊢
    omega
  · exact (holds_set hi.asleep hwaiters hwoken).wait (List.getElem?_set_self hlt) hwaiters hwoken
  · by_cases huw : w = u
    · subst huw
      exact Or.inl (by simp)
    · rw [List.getElem?_set_ne huw] at hu
      exact (hi.somewhere u hu).imp_left fun h => by simp [h]

/-- A notified worker that finds the queue empty goes back to sleep. -/
theorem Inv.sleepsAgain (hi : Inv s) {w : Nat} (hw : s.workers[w]? = some .waiting)
    (hm : w ∉ s.st.cond.waiters) (hq : s.st.queue = []) :
    Inv ⟨{ s.st with cond := (s.st.cond.recheck w).wait w }, s.workers.set w .waiting⟩ := by
  have hmem := hi.mem_woken hw hm
  -- it stays a sleeper, and goes from the woken to the waiting ones
  have hset : s.workers.set w .waiting = s.workers := by
    obtain ⟨hlt, helem⟩ := List.getElem?_eq_some_iff.1 hw
    rw [← helem, List.set_getElem_self]
  have hlen : (s.st.cond.woken.erase w).length + 1 = s.st.cond.woken.length := by
    have hpos := List.length_pos_of_mem hmem
    rw [List.length_erase_of_mem hmem]
    omega
  have hcomplete := hi.complete
  rw [hset]
  refine ⟨hi.idle_eq, ?_, (hi.asleep.recheck w).wait hw hm (hi.asleep.distinct.not_mem_recheck w),
    fun u hu => ?_, hi.unopened, .of_nonpos (by simp [hq])⟩
  · simp only [Pool.sleepers, Condition.waiters_wait, Condition.waiters_recheck,
      Condition.woken_wait, Condition.woken_recheck, List.length_append,
      List.length_singleton] at hcomplete ⊢
    omega
  · by_cases huw : u = w
    · subst huw
      exact Or.inl (by simp)
    · rcases hi.somewhere u hu with h | h
      · exact Or.inl (by simp [h])
      · exact Or.inr ((List.mem_erase_of_ne huw).2 h)

/-- With `_idle` at zero nobody sleeps. -/
theorem Inv.nobody_of_idle (hi : Inv s) (hidle : s.st.idle = 0) : s.st.cond.waiters = [] := by
  have heq := hi.idle_eq
  have hcomplete := hi.complete
  exact List.length_eq_zero_iff.1 (by omega)

/-- Notifying moves a worker from one list to the other; new workers are at their top. -/
theorem Inv.notified (hi : Inv s) (queue : List τ) (count : Nat) (extra : List (Worker τ))
    (hextra : ∀ a ∈ extra, a = .top) (hopen : s.st.opened = true)
    (hcount : (queue.length : Int) ≤ s.st.queue.length + 1) :
    Inv ⟨{ s.st with
      queue := queue, workerCount := count, cond := s.st.cond.notify }, s.workers ++ extra⟩ := by
  -- `notify` moves one from the waiting to the woken, so the sum is the same
  have hperm := Condition.perm_notify s.st.cond
  have hlen : s.st.cond.notify.waiters.length + s.st.cond.notify.woken.length =
      s.st.cond.waiters.length + s.st.cond.woken.length := by
    have hlength := hperm.length_eq
    rwa [List.length_append, List.length_append] at hlength
  -- the extra workers are at the top of their loops
  have hnone : extra.countP Worker.isWaiting = 0 := by
    refine List.countP_eq_zero.2 fun a ha => ?_
    rw [hextra a ha]
    simp [Worker.isWaiting]
  have hleft : ∀ w : Nat, s.workers[w]? = some .waiting →
      (s.workers ++ extra)[w]? = some .waiting := by
    intro w hw
    rw [List.getElem?_append_left (List.getElem?_eq_some_iff.1 hw).1]
    exact hw
  have hback : ∀ w : Nat, (s.workers ++ extra)[w]? = some .waiting →
      s.workers[w]? = some .waiting := by
    intro w hw
    rcases Nat.lt_or_ge w s.workers.length with hlt | hge
    · rwa [List.getElem?_append_left hlt] at hw
    · rw [List.getElem?_append_right hge] at hw
      cases hextra _ (List.mem_of_getElem? hw)
  refine ⟨?_, ?_, (hi.asleep.notify fun _ h => h).mono (fun w _ => hleft w) (fun w _ => hleft w),
    fun w hw => ?_, fun h => ?_, ?_⟩
  · rw [Pool.sleepers, List.countP_append, hnone]
    exact hi.idle_eq
  · rw [Pool.sleepers, List.countP_append, hnone, hlen]
    exact hi.complete
  · have hmem : w ∈ s.st.cond.waiters ++ s.st.cond.woken :=
      List.mem_append.2 (hi.somewhere w (hback w hw))
    exact List.mem_append.1 (hperm.mem_iff.2 hmem)
  · rw [show s.st.opened = false from h] at hopen
    cases hopen
  -- the new task is covered by the one that was notified, or by the new worker
  · refine (hi.covered.notify fun _ _ => rfl).mono ?_
    simp only [Pool.tops, List.countP_append]
    push_cast
    omega

/-- Every move keeps the invariant. -/
theorem move_inv (hi : Inv s) {b : Bool} (h : Move s s' b) : Inv s' := by
  cases h with
  | same => exact hi
  | opens hclosed =>
    exact ⟨hi.idle_eq, hi.complete, hi.asleep, hi.somewhere, (fun h => by cases h), hi.covered⟩
  | spawns task hopen hclosed hidle =>
    exact hi.notified _ _ [.top] (by simp) hopen (by simp)
  -- The task is queued and nobody is notified, but no worker sleeps either.
  | spawnFails task hopen hclosed hidle =>
    refine ⟨hi.idle_eq, hi.complete, hi.asleep, hi.somewhere, fun h => ?_, ?_⟩
    · rw [show s.st.opened = false from h] at hopen
      cases hopen
    · exact .of_waiters_nil (hi.nobody_of_idle hidle)
  | hands task hopen hclosed hidle =>
    have hnew := hi.notified (s.st.queue ++ [task]) s.st.workerCount [] (by simp) hopen
      (by simp)
    rwa [List.append_nil] at hnew
  | closes =>
    refine ⟨hi.idle_eq, ?_, hi.asleep.notifyAll fun _ h => h, fun w hw => ?_, hi.unopened,
      .of_waiters_nil rfl⟩
    · have hcomplete := hi.complete
      simp only [Pool.sleepers, Condition.waiters_notifyAll, Condition.woken_notifyAll,
        List.length_append, List.length_nil] at hcomplete ⊢
      omega
    · exact Or.inr (List.mem_append.2 (hi.somewhere w hw).symm)
  -- One task less, and one worker less at the top of its loop.
  | takeTop w task rest hw hq =>
    refine hi.awake rest hw (by simp) (by simp) (fun h => ?_) (Or.inl ?_)
    · have hnil := hi.unopened h
      rw [hq] at hnil
      cases hnil
    · have hset := countP_set_add (p := Worker.isTop) (.running task) hw
      simp only [Worker.isTop, if_true, Bool.false_eq_true, if_false, Nat.add_zero] at hset
      simp only [Pool.tops, hq, List.length_cons]
      push_cast
      omega
  | takeWoken w task rest hw hm hq =>
    refine hi.leavesWait rest hw hm (by simp) (fun h => ?_) (Or.inl (by simp [hq]))
    have hnil := hi.unopened h
    rw [hq] at hnil
    cases hnil
  | leaveTop w hw hq hclosed =>
    have hnew := hi.awake (b := .exited) s.st.queue hw (by simp) (by simp) hi.unopened (Or.inr hq)
    exact hnew
  | leaveWoken w hw hm hq hclosed =>
    have hnew := hi.leavesWait (b := .exited) s.st.queue hw hm (by simp) hi.unopened (Or.inr hq)
    exact hnew
  | sleepTop w hw hq => exact hi.sleeps hw hq
  | sleepWoken w hw hm hq => exact hi.sleepsAgain hw hm hq
  -- The worker is back at the top of its loop, where it looks for a task again.
  | finish w task hw =>
    refine hi.awake (b := .top) s.st.queue hw (by simp) (by simp) hi.unopened
      (Or.inl ?_)
    have hset := countP_set_add (p := Worker.isTop) .top hw
    simp only [Worker.isTop, if_true, Bool.false_eq_true, if_false, Nat.add_zero] at hset
    simp only [Pool.tops]
    omega

theorem inv_start : Inv (Pool.start : Pool τ) where
  idle_eq := rfl
  complete := rfl
  asleep := .empty
  somewhere w h := by cases h
  unopened _ := rfl
  covered := .of_waiters_nil rfl

theorem step_inv (hi : Inv s) {a : Act τ} (h : s.step a = some s') : Inv s' :=
  move_inv hi (step_move h)

/-- The invariant holds in every reachable state of a pool. -/
theorem inv_reachable (h : (system τ).Reachable s) : Inv s := by
  refine Lts.invariant (fun r hr => ?_) (fun r a u (hr : Inv r) hstep => step_inv hr hstep) h
  rw [hr]
  exact inv_start

end Invariant

/-! ## The condition on `submit` -/

section Backlog

variable {s s' : Pool τ}

/-- Only a `submit` can create a backlog. -/
theorem move_keeps_noBacklog (hi : Inv s) (hP : NoBacklog s) (h : Move s s' false) :
    NoBacklog s' := by
  cases h with
  | same => exact hP
  | opens hclosed =>
    intro _ _
    cases hopen : s.st.opened with
    | true => exact hP hopen hclosed
    | false => simp [hi.unopened hopen]
  | closes =>
    intro _ h
    cases h
  -- A free worker less, and a task less.
  | takeTop w task rest hw hq =>
    intro hopen hclosed
    have hle := hP hopen hclosed
    have hset := countP_set_add (p := Worker.isFree) (.running task) hw
    simp only [Worker.isFree, if_true, Bool.false_eq_true, if_false] at hset
    simp only [hq, List.length_cons, Pool.free] at hle ⊢
    omega
  | takeWoken w task rest hw hm hq =>
    intro hopen hclosed
    have hle := hP hopen hclosed
    have hset := countP_set_add (p := Worker.isFree) (.running task) hw
    simp only [Worker.isFree, if_true, Bool.false_eq_true, if_false] at hset
    simp only [hq, List.length_cons, Pool.free] at hle ⊢
    omega
  -- Only an empty queue lets a worker exit or sleep.
  | leaveTop w hw hq hclosed =>
    intro _ _
    simp [hq]
  | leaveWoken w hw hm hq hclosed =>
    intro _ _
    simp [hq]
  | sleepTop w hw hq =>
    intro _ _
    simp [hq]
  | sleepWoken w hw hm hq =>
    intro _ _
    simp [hq]
  | finish w task hw =>
    intro hopen hclosed
    have hle := hP hopen hclosed
    have hset := countP_set_add (p := Worker.isFree) .top hw
    simp only [Worker.isFree, if_true, Bool.false_eq_true, if_false] at hset
    simp only [Pool.free] at hle ⊢
    omega

/-- A `submit` keeps `NoBacklog` exactly when it finds a worker or starts one. -/
theorem submit_noBacklog (hP : NoBacklog s) {task : τ} {started : Bool}
    (h : s.step (.submit task started) = some s') :
    NoBacklog s' ↔ SubmitFindsWorker s (.submit task started) := by
  simp only [Pool.step] at h
  by_cases hopen : s.st.opened = true ∧ s.st.closed = false
  · rw [PoolState.submit_open hopen.1 hopen.2] at h
    have hle := hP hopen.1 hopen.2
    simp only [SubmitFindsWorker, hopen.1, hopen.2, forall_const]
    -- nobody is idle: a worker is started, or the task is queued without one
    by_cases hidle : s.st.idle = 0
    · rw [if_pos hidle] at h
      cases started with
      | true =>
        cases h
        refine ⟨fun _ => Or.inl ⟨hidle, rfl⟩, fun _ _ _ => ?_⟩
        simp only [Pool.free, List.length_append, List.length_singleton,
          List.countP_append] at hle ⊢
        simpa [Worker.isFree] using hle
      | false =>
        cases h
        simp only [NoBacklog, hopen.1, hopen.2, Pool.free, List.length_append,
          List.length_singleton, Bool.false_eq_true, and_false, false_or, forall_const]
        exact Nat.succ_le_iff
    -- somebody is idle by the count: the task is queued, and the condition is that he is free
    · rw [if_neg hidle] at h
      cases h
      simp only [NoBacklog, hopen.1, hopen.2, Pool.free, List.length_append, List.length_singleton,
        hidle, false_and, false_or, forall_const]
      exact Nat.succ_le_iff
  · rw [PoolState.submit_notOpen hopen] at h
    cases h
    exact ⟨fun _ h1 h2 => absurd ⟨h1, h2⟩ hopen, fun _ => hP⟩

theorem step_noBacklog (hi : Inv s) (hP : NoBacklog s) {a : Act τ} (h : s.step a = some s') :
    NoBacklog s' ↔ SubmitFindsWorker s a := by
  cases a with
  | submit task started => exact submit_noBacklog hP h
  | enter => exact ⟨fun _ => trivial, fun _ => move_keeps_noBacklog hi hP (step_move h)⟩
  | stop => exact ⟨fun _ => trivial, fun _ => move_keeps_noBacklog hi hP (step_move h)⟩
  | exit => exact ⟨fun _ => trivial, fun _ => move_keeps_noBacklog hi hP (step_move h)⟩
  | loop w => exact ⟨fun _ => trivial, fun _ => move_keeps_noBacklog hi hP (step_move h)⟩
  | finish w => exact ⟨fun _ => trivial, fun _ => move_keeps_noBacklog hi hP (step_move h)⟩

end Backlog

/-! ## Draining the queue -/

section Drain

variable {s s' : Pool τ}

/-- Workers on their way to the lock: before their critical section, or notified. -/
def Pool.active (s : Pool τ) : Nat := s.tops + s.st.cond.woken.length

/-- Without a backlog every queued task has a worker on its way. -/
theorem Inv.length_le_active (hi : Inv s) (hopen : s.st.opened = true)
    (hclosed : s.st.closed = false) (hP : NoBacklog s) : s.st.queue.length ≤ s.active := by
  unfold Pool.active
  by_cases hnone : s.st.cond.waiters = []
  · have hle := hP hopen hclosed
    have hcomplete := hi.complete
    rw [hnone, List.length_nil] at hcomplete
    rw [free_eq] at hle
    omega
  · have hcov := hi.covered hnone
    rw [List.countP_true] at hcov
    omega

/-- A worker on its way takes the oldest task. -/
theorem take_next (hi : Inv s) {task : τ} {rest : List τ} (hq : s.st.queue = task :: rest)
    (hactive : 0 < s.active) :
    ∃ w s', s.loop w = some s' ∧ s'.st.queue = rest ∧ s'.active + 1 = s.active ∧
      s'.workers = s.workers.set w (.running task) ∧
      ∀ t, s.workers[w]? ≠ some (.running t) := by
  by_cases htops : 0 < s.tops
  -- a worker at the top of its loop takes it
  · obtain ⟨a, hmem, htop⟩ := List.countP_pos_iff.1 htops
    obtain ⟨w, hw⟩ := List.getElem?_of_mem hmem
    have ha : a = .top := by cases a <;> simp_all [Worker.isTop]
    subst ha
    refine ⟨w, ⟨{ s.st with queue := rest }, s.workers.set w (.running task)⟩, ?_, rfl, ?_, rfl, ?_⟩
    · simp only [Pool.loop, hw]
      rw [PoolState.loopTop_cons hq]
      rfl
    · have hset := countP_set_add (p := Worker.isTop) (.running task) hw
      simp only [Worker.isTop, if_true, Bool.false_eq_true, if_false, Nat.add_zero] at hset
      simp only [Pool.active, Pool.tops]
      omega
    · simp [hw]
  -- or one that has been woken, which is none of the waiting ones
  · have hwoken : 0 < s.st.cond.woken.length := by
      unfold Pool.active at hactive
      omega
    obtain ⟨w, hmem⟩ := List.exists_mem_of_length_pos hwoken
    have hw := hi.asleep.onWay w hmem
    have hm : w ∉ s.st.cond.waiters := fun hq' => hi.asleep.distinct.not_mem_woken hq' hmem
    refine ⟨w, ⟨{ s.st with
      queue := rest, idle := s.st.idle - 1, cond := s.st.cond.recheck w },
      s.workers.set w (.running task)⟩, ?_, rfl, ?_, rfl, ?_⟩
    · simp only [Pool.loop, hw, if_neg hm]
      rw [PoolState.loopWoken_cons hq]
      rfl
    · have hset := countP_set_add (p := Worker.isTop) (.running task) hw
      simp only [Worker.isTop, Bool.false_eq_true, if_false, Nat.add_zero] at hset
      have hlen := List.length_erase_of_mem hmem
      simp only [Pool.active, Pool.tops, Condition.woken_recheck]
      omega
    · simp [hw]

/-- Some critical sections of the workers, and nothing else, lead to an empty queue, while every
running task runs on. -/
def Pool.Drains (s : Pool τ) : Prop :=
  ∃ (ws : List Nat) (s' : Pool τ), (system τ).exec s (ws.map .loop) = some s' ∧ s'.st.queue = [] ∧
    ∀ (u : Nat) (t : τ), s.workers[u]? = some (.running t) → s'.workers[u]? = some (.running t)

/-- With as many active workers as tasks, the queue drains. -/
theorem drains_of_active (hi : Inv s) (hle : s.st.queue.length ≤ s.active) : s.Drains := by
  induction hq : s.st.queue generalizing s with
  | nil => exact ⟨[], s, rfl, hq, fun u t h => h⟩
  | cons task rest ih =>
    rw [hq, List.length_cons] at hle
    obtain ⟨w, s₁, hloop, hq₁, hactive, hworkers, hnot⟩ := take_next hi hq (by omega)
    have hi₁ : Inv s₁ := step_inv hi (a := .loop w) hloop
    obtain ⟨ws, s₂, hexec, hnil, hrun⟩ := ih hi₁ (by rw [hq₁]; omega) hq₁
    refine ⟨w :: ws, s₂, (Lts.exec_cons _).2 ⟨s₁, hloop, hexec⟩, hnil, fun u t hu => ?_⟩
    apply hrun u t
    have hwu : w ≠ u := fun heq => hnot t (heq ▸ hu)
    rw [hworkers, List.getElem?_set_ne hwu]
    exact hu

end Drain

/-! ## Runs -/

/-- No accepted task of an open pool has to wait for a running one. -/
def QueueDrains (s : Pool τ) : Prop := s.st.opened = true → s.st.closed = false → s.Drains

section Runs

variable {s : Pool τ}

/-- In a run of a pool there is never a backlog exactly when every `submit` finds a worker or starts
one; in such a run no accepted task has to wait for a running one. -/
theorem pool_no_backlog {as : List (Act τ)} (hrun : (system τ).exec Pool.start as = some s) :
    ((system τ).Throughout NoBacklog Pool.start as ↔
        (system τ).Meets SubmitFindsWorker Pool.start as) ∧
      ((system τ).Meets SubmitFindsWorker Pool.start as →
        (system τ).Throughout QueueDrains Pool.start as) := by
  have hiff : (system τ).Throughout NoBacklog Pool.start as ↔
      (system τ).Meets SubmitFindsWorker Pool.start as :=
    Lts.throughout_iff_meets (fun r a u (hi : Inv r) hstep => step_inv hi hstep)
      (fun r a u hi hP hstep => step_noBacklog hi hP hstep) inv_start
      (fun h => by cases h) hrun
  refine ⟨hiff, fun hmeets => ?_⟩
  have hall := Lts.throughout_iff_prefix.1 (hiff.2 hmeets)
  refine Lts.throughout_iff_prefix.2 fun pre r hpre hr hopen hclosed => ?_
  have hi : Inv r := inv_reachable ⟨_, pre, rfl, hr⟩
  exact drains_of_active hi (hi.length_le_active hopen hclosed (hall pre r hpre hr))

/-- Two tasks in a row, the second while the first one runs. -/
def twoTasks : List (Act Nat) :=
  [.enter, .submit 1 true, .loop 0, .submit 2 true, .loop 1, .finish 0, .loop 0]

theorem pool_no_backlog_twoTasks :
    (system Nat).Throughout NoBacklog Pool.start twoTasks ∧
      (system Nat).Throughout QueueDrains Pool.start twoTasks := by
  have hrun : ((system Nat).exec Pool.start twoTasks).isSome := rfl
  obtain ⟨s, hs⟩ := Option.isSome_iff_exists.1 hrun
  have hmeets : (system Nat).Meets SubmitFindsWorker Pool.start twoTasks := by decide
  exact ⟨(pool_no_backlog hs).1.2 hmeets, (pool_no_backlog hs).2 hmeets⟩

/-- One worker is asleep. Two tasks are submitted before it has woken up, and it takes the first. -/
def burst : List (Act Nat) :=
  [.enter, .submit 1 true, .loop 0, .finish 0, .loop 0, .submit 2 true, .submit 3 true, .loop 0]

/-- The second task of the burst is queued, the only worker runs the first one, and no worker has a
critical section to run: task 3 has to wait for task 2 to finish. -/
theorem pool_backlog :
    ∃ s : Pool Nat, (system Nat).Reachable s ∧ s.st.opened = true ∧ s.st.closed = false ∧
      s.st.queue = [3] ∧ s.workers = [.running 2] ∧ (∀ w, s.step (.loop w) = none) ∧
      ¬NoBacklog s ∧ ¬QueueDrains s := by
  have hreach := Lts.Reachable.of_isSome (M := system Nat) rfl burst rfl
  generalize hs : ((system Nat).exec Pool.start burst).get rfl = s at hreach
  have hstuck : ∀ w, s.step (.loop w) = none := by
    intro w
    subst hs
    cases w <;> rfl
  refine ⟨s, hreach, by rw [← hs]; rfl, by rw [← hs]; rfl, by rw [← hs]; rfl, by rw [← hs]; rfl,
    hstuck, fun h => ?_, fun h => ?_⟩
  · subst hs
    exact absurd (h rfl rfl) (by decide)
  · obtain ⟨ws, s', hexec, hnil, -⟩ := h (by rw [← hs]; rfl) (by rw [← hs]; rfl)
    cases ws with
    | nil =>
      cases hexec
      subst hs
      cases hnil
    | cons w ws =>
      obtain ⟨u, hu, -⟩ := (Lts.exec_cons _).1 hexec
      cases (hstuck w).symm.trans hu

end Runs

end LocalPost.Threadtools.Executor
