import LocalPost.Threadtools.Executor.Task
import LocalPost.Threadtools.Executor.Backlog
import LocalPost.Core.ListEntries

/-!
# Every accepted task is settled

`Stage` says where an accepted task stands: in the queue, popped by a worker that has not called its
function yet, inside the function, or settled; in each stage it is held at one place only. `Ok` is
the invariant: `Stage` for every task, the pool's own invariant, an exited worker only in a closed
pool with an empty queue, and the threads that a call of `__exit__` has joined.

When a call of `__exit__` has returned every worker has exited, so no task is held by the queue or
by a worker and all of them are settled (`Settles`). A closed executor gets there: every live worker
has a step to take, each such step takes from `work`, and then `__exit__` returns by its own steps
(`Finishes`).
-/

set_option autoImplicit false

namespace LocalPost.Threadtools.Executor

open LocalPost.Core

/-- The worker runs a task. -/
def Worker.isRunning : Worker Nat → Bool
  | .running _ => true
  | _ => false

/-- The worker's thread has not ended. -/
def Worker.isLive : Worker Nat → Bool
  | .exited => false
  | _ => true

namespace WorkerExecutor

/-- Worker `w` will look at the queue again: it is before its critical section, it has been
notified, or it runs a task. -/
def LooksAgain (s : WorkerExecutor) (w : Nat) : Prop :=
  s.pool.workers[w]? = some .top ∨ (∃ i, s.pool.workers[w]? = some (.running i)) ∨
    s.pool.workers[w]? = some .waiting ∧ w ∉ s.pool.st.cond.waiters

/-- What holds of an executor in every state. -/
structure Settles (s : WorkerExecutor) : Prop where
  attended : s.pool.st.queue ≠ [] → ∃ w, s.LooksAgain w
  once : ∀ t ∈ s.tasks, t.poppedBy.length ≤ 1 ∧ t.runs ≤ 1
  drained : ∀ w : Nat, s.pool.workers[w]? = some .exited →
    s.pool.st.closed = true ∧ s.pool.st.queue = []
  refused : s.pool.st.closed = true → s.step .submit = some s
  settled : ExitCall.returned ∈ s.exits →
    ∀ t ∈ s.tasks, (∃ w, t.poppedBy = [w]) ∧ t.future.done = true

/-- An upper bound for the steps that the workers of a closed executor still take. -/
def work (s : WorkerExecutor) : Nat :=
  2 * s.pool.st.queue.length + s.pool.workers.countP Worker.isRunning +
    s.pool.workers.countP Worker.isLive + s.tasks.countP fun t => t.future.unbegun

/-- A closed executor comes to its end: every live worker has a step, the workers' steps in whatever
run are bounded by `work`, and when they have exited a call of `__exit__` returns by its own
steps. -/
structure Finishes (s : WorkerExecutor) : Prop where
  enabled : ∀ (w : Nat) (a : Worker Nat), s.pool.workers[w]? = some a → a ≠ .exited →
    ∃ act : ExecutorAct, act.worker = some w ∧ (s.step act).isSome
  bounded : ∀ as t, executor.exec s as = some t →
    as.countP (fun a => a.worker.isSome) + t.work ≤ s.work
  returns : (∀ (w : Nat) (a : Worker Nat), s.pool.workers[w]? = some a → a = .exited) →
    ∀ e < s.exits.length, ∃ n t, executor.exec s (List.replicate n (.join e)) = some t ∧
      t.exits[e]? = some .returned

/-- Where task `i` stands, with the only place that holds it. -/
inductive Stage (s : WorkerExecutor) (i : Nat) (t : Submission) : Prop
  | queued (hq : i ∈ s.pool.st.queue)
      (hnone : ∀ w : Nat, s.pool.workers[w]? ≠ some (.running i))
      (hpop : t.poppedBy = []) (hruns : t.runs = 0) (hfut : t.future.unbegun = true)
  | taken (w : Nat) (hq : i ∉ s.pool.st.queue)
      (honly : ∀ u : Nat, s.pool.workers[u]? = some (.running i) ↔ u = w) (hin : w ∉ s.inside)
      (hpop : t.poppedBy = [w]) (hruns : t.runs = 0) (hfut : t.future.unbegun = true)
  | inside (w : Nat) (hq : i ∉ s.pool.st.queue)
      (honly : ∀ u : Nat, s.pool.workers[u]? = some (.running i) ↔ u = w) (hin : w ∈ s.inside)
      (hpop : t.poppedBy = [w]) (hruns : t.runs = 1) (hfut : t.future = .running)
  | settled (w : Nat) (hq : i ∉ s.pool.st.queue)
      (hnone : ∀ u : Nat, s.pool.workers[u]? ≠ some (.running i))
      (hpop : t.poppedBy = [w]) (hruns : t.runs ≤ 1) (hfut : t.future.done = true)

/-- The pool is closed, and the threads a call of `__exit__` has joined have ended. -/
def ExitOk (s : WorkerExecutor) : ExitCall → Prop
  | .closed => s.pool.st.closed = true
  | .joining left => s.pool.st.closed = true ∧ (∀ u ∈ left, u < s.pool.workers.length) ∧
      ∀ u < s.pool.workers.length, u ∈ left ∨ s.pool.workers[u]? = some .exited
  | .returned => s.pool.st.closed = true ∧
      ∀ u < s.pool.workers.length, s.pool.workers[u]? = some .exited

/-- The invariant of the executor. -/
structure Ok (s : WorkerExecutor) : Prop where
  pool : Inv s.pool
  stage : ∀ (i : Nat) (t : Submission), s.tasks[i]? = some t → s.Stage i t
  known : ∀ i : Nat, (i ∈ s.pool.st.queue ∨ ∃ w : Nat, s.pool.workers[w]? = some (.running i)) →
    i < s.tasks.length
  distinct : s.pool.st.queue.Nodup
  drained : ∀ w : Nat, s.pool.workers[w]? = some .exited →
    s.pool.st.closed = true ∧ s.pool.st.queue = []
  alive : s.pool.st.queue ≠ [] → ∃ (w : Nat) (a : Worker Nat), s.pool.workers[w]? = some a
  awake : s.pool.st.closed = true → s.pool.st.cond.waiters = []
  inside : ∀ w ∈ s.inside, ∃ i, s.pool.workers[w]? = some (.running i)
  exits : ∀ call ∈ s.exits, s.ExitOk call

end WorkerExecutor

/-! ## Inversion of the steps -/

/-- A worker comes out of its critical section with the oldest task, or for good because the pool is
closed and drained, or it sleeps because the pool is open and has no task. -/
theorem loop_cases {τ : Type} {s p : Pool τ} {w : Nat} (h : s.loop w = some p) :
    ∃ a, s.workers[w]? = some a ∧ a.isFree = true ∧ p.st.opened = s.st.opened ∧
      p.st.closed = s.st.closed ∧
      ((∃ task rest, s.st.queue = task :: rest ∧ p.st.queue = rest ∧
          p.st.cond.waiters = s.st.cond.waiters ∧ p.workers = s.workers.set w (.running task)) ∨
        (s.st.queue = [] ∧ p.st.queue = [] ∧ s.st.closed = true ∧
          p.st.cond.waiters = s.st.cond.waiters ∧ p.workers = s.workers.set w .exited) ∨
        (s.st.queue = [] ∧ p.st.queue = [] ∧ s.st.closed = false ∧
          p.workers = s.workers.set w .waiting)) := by
  unfold Pool.loop at h
  split at h
  -- a worker at the top of its loop
  · rename_i hw
    refine ⟨_, hw, rfl, ?_⟩
    cases hq : s.st.queue with
    | cons task rest =>
      rw [PoolState.loopTop_cons hq] at h
      cases h
      exact ⟨rfl, rfl, .inl ⟨task, rest, rfl, rfl, rfl, rfl⟩⟩
    | nil =>
      cases hclosed : s.st.closed with
      | true =>
        rw [PoolState.loopTop_closed hq hclosed] at h
        cases h
        exact ⟨rfl, hclosed, .inr (.inl ⟨rfl, hq, rfl, rfl, rfl⟩)⟩
      | false =>
        rw [PoolState.loopTop_empty hq hclosed] at h
        cases h
        exact ⟨rfl, hclosed, .inr (.inr ⟨rfl, hq, rfl, rfl⟩)⟩
  -- a worker that waits: it must have been woken
  · rename_i hw
    split at h
    · cases h
    · refine ⟨_, hw, rfl, ?_⟩
      cases hq : s.st.queue with
      | cons task rest =>
        rw [PoolState.loopWoken_cons hq] at h
        cases h
        exact ⟨rfl, rfl, .inl ⟨task, rest, rfl, rfl, rfl, rfl⟩⟩
      | nil =>
        cases hclosed : s.st.closed with
        | true =>
          rw [PoolState.loopWoken_closed hq hclosed] at h
          cases h
          exact ⟨rfl, hclosed, .inr (.inl ⟨rfl, hq, rfl, rfl, rfl⟩)⟩
        | false =>
          rw [PoolState.loopWoken_empty hq hclosed] at h
          cases h
          exact ⟨rfl, hclosed, .inr (.inr ⟨rfl, hq, rfl, rfl⟩)⟩
  · cases h

namespace WorkerExecutor

section Steps

variable {s s' : WorkerExecutor} {p : Pool Nat} {i w : Nat} {t : Submission}

/-- A closed executor refuses what is submitted. -/
theorem submit_closed (hclosed : s.pool.st.closed = true) : s.submit = some s := by
  have hrefused : s.pool.st.submit s.tasks.length true = (s.pool.st, .notOpen) :=
    PoolState.submit_notOpen fun h => by cases hclosed.symm.trans h.2
  rw [submit, hrefused]

/-- An open executor queues what is submitted; without an idle worker it starts one. -/
theorem submit_cases (h : s.submit = some s') : s' = s ∨
    s.pool.st.opened = true ∧ s.pool.st.closed = false ∧ ∃ p,
      s.pool.step (.submit s.tasks.length true) = some p ∧
      s' = { s with pool := p, tasks := s.tasks ++ [⟨.pending, [], 0⟩] } ∧
      p.st.queue = s.pool.st.queue ++ [s.tasks.length] ∧ p.st.closed = false ∧
      (p.workers = s.pool.workers ++ [.top] ∨
        p.workers = s.pool.workers ∧ s.pool.st.idle ≠ 0) := by
  by_cases hopen : s.pool.st.opened = true ∧ s.pool.st.closed = false
  · refine .inr ⟨hopen.1, hopen.2, ?_⟩
    unfold submit at h
    have heq := @PoolState.submit_open _ _ s.tasks.length true hopen.1 hopen.2
    -- nobody is idle by the count: a new worker is started
    by_cases hidle : s.pool.st.idle = 0
    · rw [if_pos hidle, if_pos rfl] at heq
      simp only [heq, Pool.step] at h ⊢
      cases h
      exact ⟨_, rfl, rfl, rfl, hopen.2, .inl rfl⟩
    -- somebody is idle by the count: he is notified
    · rw [if_neg hidle] at heq
      simp only [heq, Pool.step] at h ⊢
      cases h
      exact ⟨_, rfl, rfl, rfl, hopen.2, .inr ⟨rfl, hidle⟩⟩
  -- a closed executor, or one not opened: the call is refused
  · have hrefused : s.pool.st.submit s.tasks.length true = (s.pool.st, .notOpen) :=
      PoolState.submit_notOpen hopen
    rw [submit, hrefused] at h
    cases h
    exact .inl rfl

/-- `__enter__`, `stop` and the closing touch neither the queue nor the workers. -/
theorem callers_cases {a : Act Nat} (ha : a = .enter ∨ a = .stop ∨ a = .exit)
    (h : s.pool.step a = some p) :
    p.st.queue = s.pool.st.queue ∧ p.workers = s.pool.workers ∧
      (s.pool.st.closed = true → p.st.closed = true) ∧ (a = .exit → p.st.closed = true) ∧
      (p.st.closed = true → s.pool.st.closed = true ∨ p.st.cond.waiters = []) ∧
      (s.pool.st.closed = true → p.st.cond.waiters = s.pool.st.cond.waiters) := by
  -- closing marks the state and wakes every waiter, once
  have hmark : ∀ q : Pool Nat, q = ⟨s.pool.st.markClosed.1, s.pool.workers⟩ →
      q.st.queue = s.pool.st.queue ∧ q.workers = s.pool.workers ∧ q.st.closed = true ∧
        (s.pool.st.closed = true ∨ q.st.cond.waiters = []) ∧
        (s.pool.st.closed = true → q.st.cond.waiters = s.pool.st.cond.waiters) := by
    rintro q rfl
    unfold PoolState.markClosed
    split
    · rename_i hclosed
      exact ⟨rfl, rfl, hclosed, .inl hclosed, fun _ => rfl⟩
    · rename_i hopen
      exact ⟨rfl, rfl, rfl, .inr rfl, fun hclosed => absurd hclosed hopen⟩
  rcases ha with rfl | rfl | rfl
  -- `enter` opens, or is refused
  · simp only [Pool.step] at h
    split at h
    · cases h
      exact ⟨rfl, rfl, id, (fun h => by cases h), .inl, fun _ => rfl⟩
    · cases h
      exact ⟨rfl, rfl, id, (fun h => by cases h), .inl, fun _ => rfl⟩
  -- `stop` closes only an opened executor
  · simp only [Pool.step, PoolState.stop] at h
    split at h
    · cases h
      obtain ⟨h1, h2, h3, h4, h5⟩ := hmark _ rfl
      exact ⟨h1, h2, fun _ => h3, fun _ => h3, fun _ => h4, h5⟩
    · cases h
      exact ⟨rfl, rfl, id, (fun h => by cases h), .inl, fun _ => rfl⟩
  -- `exit` always closes
  · simp only [Pool.step] at h
    cases h
    obtain ⟨h1, h2, h3, h4, h5⟩ := hmark _ rfl
    exact ⟨h1, h2, fun _ => h3, fun _ => h3, fun _ => h4, h5⟩

end Steps

/-! ## The invariant step by step -/

section Keep

variable {s s' : WorkerExecutor} {i w : Nat} {t : Submission}

/-- A task stays in its stage when it is held where it was, outside or inside the function as
before. -/
theorem Stage.keep (h : s.Stage i t) (hq : i ∈ s'.pool.st.queue ↔ i ∈ s.pool.st.queue)
    (hworkers : ∀ u : Nat, s'.pool.workers[u]? = some (.running i) ↔
      s.pool.workers[u]? = some (.running i))
    (hin : ∀ u : Nat, s.pool.workers[u]? = some (.running i) → (u ∈ s'.inside ↔ u ∈ s.inside)) :
    s'.Stage i t := by
  cases h with
  | queued hq₀ hnone hpop hruns hfut =>
    exact .queued (hq.2 hq₀) (fun u hu => hnone u ((hworkers u).1 hu)) hpop hruns hfut
  | taken w hq₀ honly hin₀ hpop hruns hfut =>
    have hw := (honly w).2 rfl
    exact .taken w (fun h => hq₀ (hq.1 h)) (fun u => (hworkers u).trans (honly u))
      (fun h => hin₀ ((hin w hw).1 h)) hpop hruns hfut
  | inside w hq₀ honly hin₀ hpop hruns hfut =>
    have hw := (honly w).2 rfl
    exact .inside w (fun h => hq₀ (hq.1 h)) (fun u => (hworkers u).trans (honly u))
      ((hin w hw).2 hin₀) hpop hruns hfut
  | settled w hq₀ hnone hpop hruns hfut =>
    exact .settled w (fun h => hq₀ (hq.1 h))
      (fun u hu => hnone u ((hworkers u).1 hu)) hpop hruns hfut

/-- A call of `__exit__` keeps what it has as long as the pool stays closed, its workers stay what
they are in number and the exited ones stay exited. -/
theorem ExitOk.keep {call : ExitCall} (h : s.ExitOk call)
    (hclosed : s.pool.st.closed = true → s'.pool.st.closed = true)
    (hlen : s.pool.st.closed = true → s'.pool.workers.length = s.pool.workers.length)
    (hexited : ∀ u : Nat, s.pool.workers[u]? = some .exited → s'.pool.workers[u]? = some .exited) :
    s'.ExitOk call := by
  cases call with
  | closed => exact hclosed h
  | joining left =>
    obtain ⟨hc, hlt, hall⟩ := h
    refine ⟨hclosed hc, fun u hu => ?_, fun u hu => ?_⟩
    · rw [hlen hc]
      exact hlt u hu
    · rw [hlen hc] at hu
      exact (hall u hu).imp_right (hexited u)
  | returned =>
    obtain ⟨hc, hall⟩ := h
    refine ⟨hclosed hc, fun u hu => ?_⟩
    rw [hlen hc] at hu
    exact hexited u (hall u hu)

/-- The worker whose entry changes was not exited, so the exited ones stay. -/
theorem exited_set {workers : List (Worker Nat)} {a b : Worker Nat} (hw : workers[w]? = some a)
    (ha : a ≠ .exited) {u : Nat} (hu : workers[u]? = some .exited) :
    (workers.set w b)[u]? = some .exited := by
  rw [getElem?_set_iff hw]
  split
  · rename_i heq
    subst heq
    cases hw.symm.trans hu
    exact absurd rfl ha
  · exact hu

/-- Who runs task `i` does not change when a worker that does not run it changes to one that does
not run it. -/
theorem running_set {workers : List (Worker Nat)} {a b : Worker Nat} (hw : workers[w]? = some a)
    (ha : a ≠ .running i) (hb : b ≠ .running i) (u : Nat) :
    (workers.set w b)[u]? = some (.running i) ↔ workers[u]? = some (.running i) := by
  rw [getElem?_set_iff hw]
  split
  · rename_i heq
    subst heq
    constructor
    · exact fun h => absurd h hb
    · intro h
      cases hw.symm.trans h
      exact absurd rfl ha
  · exact Iff.rfl

end Keep

namespace Ok

variable {s s' : WorkerExecutor} {p : Pool Nat} {i w : Nat}

theorem start : Ok WorkerExecutor.start where
  pool := inv_start
  stage i t h := by cases h
  known i h := by
    rcases h with h | ⟨w, h⟩
    · cases h
    · cases h
  distinct := .nil
  drained w h := by cases h
  alive h := absurd rfl h
  awake _ := rfl
  inside w h := by cases h
  exits call h := by cases h

/-- A step of the callers that leaves queue, workers and tasks alone. -/
theorem callers (hi : Ok s) {a : Act Nat} (ha : a = .enter ∨ a = .stop ∨ a = .exit)
    {exits : List ExitCall} (hnew : ∀ call ∈ exits, call ∈ s.exits ∨ a = .exit ∧ call = .closed)
    (h : s.pool.step a = some p) : Ok { s with pool := p, exits := exits } := by
  obtain ⟨hq, hw, hclosed, hexit, hawake, hsame⟩ := callers_cases ha h
  refine ⟨step_inv hi.pool h, fun i t ht => ?_, fun i hi' => ?_, ?_, fun w hw' => ?_, fun hne => ?_,
    fun hc => ?_, fun w hin => ?_, fun call hcall => ?_⟩
  -- no task moves, so each is at the stage it was at
  · refine (hi.stage i t ht).keep ?_ (fun u => ?_) (fun u _ => Iff.rfl)
    · rw [hq]
    · rw [hw]
  · rw [hq, hw] at hi'
    exact hi.known i hi'
  · rw [hq]
    exact hi.distinct
  · rw [hw] at hw'
    obtain ⟨hc, hnil⟩ := hi.drained w hw'
    exact ⟨hclosed hc, hq.trans hnil⟩
  · rw [hq] at hne
    rw [hw]
    exact hi.alive hne
  -- closed already: the waiters are the same; closed by this call: it woke them all
  · cases hold : s.pool.st.closed with
    | true => exact (hsame hold).trans (hi.awake hold)
    | false =>
      rcases hawake hc with h' | h'
      · cases hold.symm.trans h'
      · exact h'
  · rw [hw]
    exact hi.inside w hin
  -- a call in the log is an old one, or this exit
  · rcases hnew call hcall with hold | ⟨rfl, rfl⟩
    · refine (hi.exits call hold).keep hclosed (fun _ => ?_) (fun u hu => ?_)
      · rw [hw]
      · rw [hw]
        exact hu
    · exact hexit rfl

/-- A free worker is not inside a function. -/
theorem not_inside (hi : Ok s) {a : Worker Nat} (hw : s.pool.workers[w]? = some a)
    (ha : ∀ i, a ≠ .running i) : w ∉ s.inside := by
  intro hin
  obtain ⟨i, hrun⟩ := hi.inside w hin
  cases hw.symm.trans hrun
  exact ha i rfl

theorem submit (hi : Ok s) (h : s.submit = some s') : Ok s' := by
  rcases submit_cases h with rfl | ⟨hopened, hopen, p, hstep, rfl, hq, hclosed, hworkers⟩
  · exact hi
  -- At most one worker is added, at the top of its loop; the others are unchanged.
  have hold : ∀ {u : Nat} {a : Worker Nat}, p.workers[u]? = some a →
      s.pool.workers[u]? = some a ∨ a = .top := by
    intro u a hu
    rcases hworkers with heq | ⟨heq, -⟩
    · rw [heq] at hu
      exact (getElem?_concat_iff.1 hu).imp_right fun h => h.2.symm
    · rw [heq] at hu
      exact .inl hu
  have hkeep : ∀ {u : Nat} {a : Worker Nat}, s.pool.workers[u]? = some a →
      p.workers[u]? = some a := by
    intro u a hu
    rcases hworkers with heq | ⟨heq, -⟩
    · rw [heq]
      exact getElem?_concat_iff.2 (.inl hu)
    · rw [heq]
      exact hu
  have hrunning : ∀ (j u : Nat), p.workers[u]? = some (.running j) ↔
      s.pool.workers[u]? = some (.running j) :=
    fun j u => ⟨fun hu => (hold hu).resolve_right (by simp), hkeep⟩
  -- The new task has the next number, which no queue and no worker holds yet.
  have hnew : s.tasks.length ∉ s.pool.st.queue :=
    fun hmem => Nat.lt_irrefl _ (hi.known _ (.inl hmem))
  refine ⟨step_inv hi.pool hstep, fun i t ht => ?_, fun i hi' => ?_, ?_, fun w hw' => ?_,
    fun _ => ?_, fun hc => ?_, fun w hin => ?_, fun call hcall => ?_⟩
  · rcases getElem?_concat_iff.1 ht with hlt | ⟨rfl, rfl⟩
    · refine (hi.stage i t hlt).keep ?_ (fun u => hrunning i u) (fun u _ => Iff.rfl)
      have hne : i ≠ s.tasks.length := Nat.ne_of_lt (List.getElem?_eq_some_iff.1 hlt).1
      simp [hq, hne]
    · refine .queued (by simp [hq]) (fun u hu => ?_) rfl rfl rfl
      exact Nat.lt_irrefl _ (hi.known _ (.inr ⟨u, (hrunning _ u).1 hu⟩))
  · rw [List.length_append, List.length_singleton]
    rcases hi' with hmem | ⟨w, hw⟩
    · rw [hq, List.mem_append, List.mem_singleton] at hmem
      rcases hmem with hmem | rfl
      · exact Nat.lt_succ_of_lt (hi.known i (.inl hmem))
      · exact Nat.lt_succ_self _
    · exact Nat.lt_succ_of_lt (hi.known i (.inr ⟨w, (hrunning i w).1 hw⟩))
  · rw [hq, List.nodup_append]
    refine ⟨hi.distinct, List.nodup_singleton _, fun a ha b hb => ?_⟩
    rw [List.mem_singleton] at hb
    subst hb
    exact fun heq => hnew (heq ▸ ha)
  · rcases hold hw' with hw' | h'
    · cases hopen.symm.trans (hi.drained w hw').1
    · cases h'
  · -- Without a new worker there is an idle one.
    rcases hworkers with heq | ⟨heq, hidle⟩
    · exact ⟨s.pool.workers.length,
        .top, by rw [heq]; exact getElem?_concat_iff.2 (.inr ⟨rfl, rfl⟩)⟩
    · have hcount := hi.pool.idle_eq
      have hpos : 0 < s.pool.sleepers := by omega
      obtain ⟨a, hmem, -⟩ := List.countP_pos_iff.1 hpos
      obtain ⟨w, hw⟩ := List.getElem?_of_mem hmem
      exact ⟨w, a, hkeep hw⟩
  · cases hclosed.symm.trans hc
  · obtain ⟨j, hj⟩ := hi.inside w hin
    exact ⟨j, hkeep hj⟩
  · have hc : s.pool.st.closed = true := by
      have hok := hi.exits call hcall
      cases call with
      | closed => exact hok
      | joining left => exact hok.1
      | returned => exact hok.1
    cases hopen.symm.trans hc

/-- What a step of worker `w` has to provide beside the stages of the tasks. -/
theorem worker (hi : Ok s) {a b : Worker Nat} {tasks : List Submission} {inside : List Nat}
    (hw : s.pool.workers[w]? = some a) (ha : a ≠ .exited) (hinv : Inv p)
    (hworkers : p.workers = s.pool.workers.set w b) (hclosed : p.st.closed = s.pool.st.closed)
    (hlen : tasks.length = s.tasks.length)
    (hstage : ∀ (i : Nat) (t : Submission), tasks[i]? = some t →
      Stage { s with pool := p, tasks := tasks, inside := inside } i t)
    (hqueue : ∃ front, s.pool.st.queue = front ++ p.st.queue)
    (hbrun : ∀ i, b = .running i → i < s.tasks.length)
    (hbexit : b = .exited → s.pool.st.closed = true ∧ p.st.queue = [])
    (hwaiters : s.pool.st.closed = true → p.st.cond.waiters = s.pool.st.cond.waiters)
    (hin : ∀ u ∈ inside, u ≠ w ∧ u ∈ s.inside ∨ u = w ∧ ∃ i, b = .running i) :
    Ok { s with pool := p, tasks := tasks, inside := inside } := by
  obtain ⟨front, hqueue⟩ := hqueue
  refine ⟨hinv, hstage, fun i hi' => ?_, ?_, fun u hu => ?_, fun _ => ?_, fun hc => ?_,
    fun u hu => ?_, fun call hcall => ?_⟩
  · rw [hlen]
    rcases hi' with hmem | ⟨u, hu⟩
    · refine hi.known i (.inl ?_)
      rw [hqueue]
      exact List.mem_append_right front hmem
    · rw [hworkers, getElem?_set_iff hw] at hu
      split at hu
      · exact hbrun i hu
      · exact hi.known i (.inr ⟨u, hu⟩)
  · have hdist := hi.distinct
    rw [hqueue] at hdist
    exact (List.nodup_append.1 hdist).2.1
  · rw [hworkers, getElem?_set_iff hw] at hu
    split at hu
    · rw [hclosed]
      exact hbexit hu
    · obtain ⟨hc, hnil⟩ := hi.drained u hu
      rw [hqueue] at hnil
      exact ⟨hclosed.trans hc, (List.append_eq_nil_iff.1 hnil).2⟩
  · refine ⟨w, b, ?_⟩
    rw [hworkers, getElem?_set_iff hw, if_pos rfl]
  · rw [hclosed] at hc
    exact (hwaiters hc).trans (hi.awake hc)
  -- Who is inside a task was so before, or is this worker.
  · rcases hin u hu with ⟨hne, hu'⟩ | ⟨rfl, i, hb⟩
    · obtain ⟨i, hrun⟩ := hi.inside u hu'
      refine ⟨i, ?_⟩
      rw [hworkers, getElem?_set_iff hw, if_neg (Ne.symm hne)]
      exact hrun
    · refine ⟨i, ?_⟩
      rw [hworkers, getElem?_set_iff hw, if_pos rfl]
      exact hb
  · refine (hi.exits call hcall).keep (fun h => hclosed.trans h) (fun _ => ?_) (fun u hu => ?_)
    · rw [hworkers, List.length_set]
    · rw [hworkers]
      exact exited_set hw ha hu

theorem loop (hi : Ok s) (h : s.loop w = some s') : Ok s' := by
  obtain ⟨p, hp, hs'⟩ := Option.map_eq_some_iff.1 h
  have hinv : Inv p := step_inv (a := .loop w) hi.pool hp
  obtain ⟨a, hw, hfree, hopened, hclosed, hcases⟩ := loop_cases hp
  have hafter : ∀ b, p.workers = s.pool.workers.set w b → p.workers[w]? = some b := by
    intro b heq
    rw [heq, getElem?_set_iff hw, if_pos rfl]
  have ha : a ≠ .exited := by
    rintro rfl
    cases hfree
  have hrun : ∀ i, a ≠ .running i := by
    rintro i rfl
    cases hfree
  have hout : ∀ u ∈ s.inside, u ≠ w := by
    rintro u hu rfl
    exact hi.not_inside hw hrun hu
  -- The worker takes the first task, or exits the closed pool, or sleeps until it is notified.
  rcases hcases with ⟨i, rest, hq, hrest, hwaiters, hworkers⟩ |
    ⟨hq, hrest, hc, hwaiters, hworkers⟩ | ⟨hq, hrest, hc, hworkers⟩
  · rw [hafter _ hworkers] at hs'
    subst hs'
    have hnodup := hi.distinct
    rw [hq, List.nodup_cons] at hnodup
    refine hi.worker hw ha hinv hworkers hclosed (List.length_modify _ _ _) ?_
      ⟨[i], by rw [hq, hrest]; rfl⟩ ?_ (fun h => (by cases h)) (fun _ => hwaiters)
      (fun u hu => .inl ⟨hout u hu, hu⟩)
    · intro j t ht
      obtain ⟨t₀, ht₀, rfl⟩ := getElem?_modify_iff.1 ht
      have hold := hi.stage j t₀ ht₀
      split
      · -- The popped task was queued, and nowhere else.
        rename_i heq
        subst heq
        have hmem : i ∈ s.pool.st.queue := by
          rw [hq]
          exact List.mem_cons_self
        cases hold with
        | queued _ hnone hpop hruns hfut =>
          refine .taken w (by rw [hrest]; exact hnodup.1) (fun u => ?_)
            (hi.not_inside hw hrun) (by rw [hpop]; rfl) hruns hfut
          rw [hworkers, getElem?_set_iff hw]
          split
          · rename_i heq
            exact iff_of_true rfl heq.symm
          · rename_i hne
            exact iff_of_false (hnone u) (Ne.symm hne)
        | taken _ hnot => exact absurd hmem hnot
        | inside _ hnot => exact absurd hmem hnot
        | settled _ hnot => exact absurd hmem hnot
      -- The other tasks are where they were.
      · rename_i hne
        refine hold.keep ?_ (fun u => ?_) (fun u _ => Iff.rfl)
        · rw [hrest, hq, List.mem_cons]
          exact (or_iff_right (Ne.symm hne)).symm
        · rw [hworkers]
          exact running_set hw (hrun j) (fun h => hne (Worker.running.inj h)) u
    · intro j hj
      cases hj
      refine hi.known i (.inl ?_)
      rw [hq]
      exact List.mem_cons_self
  · rw [hafter _ hworkers] at hs'
    subst hs'
    refine hi.worker hw ha hinv hworkers hclosed rfl ?_ ⟨[], by rw [hq, hrest]; rfl⟩
      (fun i h => (by cases h)) (fun _ => ⟨hc, hrest⟩) (fun _ => hwaiters)
      (fun u hu => .inl ⟨hout u hu, hu⟩)
    intro j t ht
    refine (hi.stage j t ht).keep ?_ (fun u => ?_) (fun u _ => Iff.rfl)
    · rw [hq, hrest]
    · rw [hworkers]
      exact running_set hw (hrun j) (by simp) u
  · rw [hafter _ hworkers] at hs'
    subst hs'
    refine hi.worker hw ha hinv hworkers hclosed rfl ?_ ⟨[], by rw [hq, hrest]; rfl⟩
      (fun i h => (by cases h)) (fun h => (by cases h)) (fun h => (by cases hc.symm.trans h))
      (fun u hu => .inl ⟨hout u hu, hu⟩)
    intro j t ht
    refine (hi.stage j t ht).keep ?_ (fun u => ?_) (fun u _ => Iff.rfl)
    · rw [hq, hrest]
    · rw [hworkers]
      exact running_set hw (hrun j) (by simp) u

/-- A worker that runs a task is the only place that holds it. -/
theorem stage_of_running (hi : Ok s) (hw : s.pool.workers[w]? = some (.running i)) :
    ∃ t, s.tasks[i]? = some t ∧ t.poppedBy = [w] ∧ i ∉ s.pool.st.queue ∧
      (∀ u : Nat, s.pool.workers[u]? = some (.running i) ↔ u = w) ∧
      (w ∉ s.inside ∧ t.runs = 0 ∧ t.future.unbegun = true ∨
        w ∈ s.inside ∧ t.runs = 1 ∧ t.future = .running) := by
  have hlt := hi.known i (.inr ⟨w, hw⟩)
  refine ⟨_, List.getElem?_eq_getElem hlt, ?_⟩
  cases hi.stage i _ (List.getElem?_eq_getElem hlt) with
  | queued hq hnone hpop hruns hfut => exact absurd hw (hnone w)
  | taken u hq honly hin hpop hruns hfut =>
    obtain rfl := (honly w).1 hw
    exact ⟨hpop, hq, honly, .inl ⟨hin, hruns, hfut⟩⟩
  | inside u hq honly hin hpop hruns hfut =>
    obtain rfl := (honly w).1 hw
    exact ⟨hpop, hq, honly, .inr ⟨hin, hruns, hfut⟩⟩
  | settled u hq hnone hpop hruns hfut => exact absurd hw (hnone w)

/-- The step before the function: the future of the popped task is pending or cancelled. -/
theorem begin_cases (hi : Ok s) (h : s.begin w = some s') :
    ∃ i t, s.pool.workers[w]? = some (.running i) ∧ s.tasks[i]? = some t ∧
      (t.future = .pending ∧ s' = { s with
          tasks := s.tasks.modify i fun t => { t with future := .running, runs := t.runs + 1 }
          inside := w :: s.inside } ∨
        t.future = .cancelled ∧ s' = { s with
          pool := ⟨s.pool.st, s.pool.workers.set w .top⟩
          tasks := s.tasks.modify i fun t => { t with future := .cancelledAndNotified } }) ∧
      w ∉ s.inside := by
  unfold WorkerExecutor.begin at h
  split at h
  · rename_i i hw
    obtain ⟨t, ht, -, -, -, hstage⟩ := hi.stage_of_running hw
    split at h
    · cases h
    · rename_i hout
      -- outside its task, so the task it holds has not begun
      obtain ⟨-, -, hfut⟩ := hstage.resolve_right fun hin => hout hin.1
      refine ⟨i, t, hw, ht, ?_, hout⟩
      simp only [ht] at h
      cases hf : t.future with
      | pending =>
        simp only [hf, Future.setRunningOrNotifyCancel, Option.some.injEq] at h
        exact .inl ⟨rfl, h.symm⟩
      | cancelled =>
        -- the future is cancelled: the task is dropped, and the worker is at the top again
        simp only [hf, Future.setRunningOrNotifyCancel, stepPool, Pool.step, hw, Option.map_some,
          Option.some.injEq] at h
        exact .inr ⟨rfl, h.symm⟩
      | running => simp [hf, Future.unbegun] at hfut
      | cancelledAndNotified => simp [hf, Future.unbegun] at hfut
      | finished raised => simp [hf, Future.unbegun] at hfut
  · cases h

/-- The step after the function: the future of the task is running. -/
theorem finish_cases (hi : Ok s) {raised : Bool} (h : s.finish w raised = some s') :
    ∃ i t, s.pool.workers[w]? = some (.running i) ∧ s.tasks[i]? = some t ∧ t.future = .running ∧
      s' = { s with
        pool := ⟨s.pool.st, s.pool.workers.set w .top⟩
        tasks := s.tasks.modify i fun t => { t with future := .finished raised }
        inside := s.inside.filter (· ≠ w) } := by
  unfold WorkerExecutor.finish at h
  split at h
  · rename_i i hw
    obtain ⟨t, ht, -, -, -, hstage⟩ := hi.stage_of_running hw
    split at h
    · rename_i hin
      obtain ⟨-, -, hfut⟩ := hstage.resolve_left fun hout => hout.1 hin
      simp only [ht, hfut, Option.bind_some, Future.settle, stepPool, Pool.step, hw,
        Option.map_some, Option.some.injEq] at h
      exact ⟨i, t, hw, ht, hfut, h.symm⟩
    · cases h
  · cases h

/-- The end of a task: its future is done and the worker is back at the top of its loop. -/
theorem endTask (hi : Ok s) (f : Future) (inside : List Nat)
    (hw : s.pool.workers[w]? = some (.running i)) (hdone : f.done = true)
    (hin : ∀ u, u ∈ inside ↔ u ∈ s.inside ∧ u ≠ w) :
    Ok { s with
      pool := ⟨s.pool.st, s.pool.workers.set w .top⟩
      tasks := s.tasks.modify i fun t => { t with future := f }
      inside := inside } := by
  have hinv : Inv ⟨s.pool.st, s.pool.workers.set w .top⟩ :=
    step_inv (a := .finish w) hi.pool (by simp only [Pool.step, hw])
  obtain ⟨t, ht, hpop, hq, honly, hstage⟩ := hi.stage_of_running hw
  have hruns : t.runs ≤ 1 := by
    rcases hstage with ⟨-, hruns, -⟩ | ⟨-, hruns, -⟩
    · exact Nat.le_of_lt (Nat.lt_of_le_of_lt (Nat.le_of_eq hruns) Nat.zero_lt_one)
    · exact Nat.le_of_eq hruns
  refine hi.worker hw (by simp) hinv rfl rfl (List.length_modify _ _ _) ?_ ⟨[], rfl⟩
    (fun j h => (by cases h)) (fun h => (by cases h)) (fun _ => rfl)
    (fun u hu => .inl ((hin u).1 hu).symm)
  -- only this worker held the task; every other task is where it was
  intro j t' ht'
  obtain ⟨t₀, ht₀, rfl⟩ := getElem?_modify_iff.1 ht'
  split
  · rename_i heq
    subst heq
    cases ht.symm.trans ht₀
    refine .settled w hq (fun u hu => ?_) hpop hruns hdone
    rw [getElem?_set_iff hw] at hu
    split at hu
    · cases hu
    · rename_i hne
      exact hne ((honly u).1 hu).symm
  · rename_i hne
    refine (hi.stage j t₀ ht₀).keep Iff.rfl (fun u => ?_) (fun u hu => ?_)
    · exact running_set hw (fun h => hne (Worker.running.inj h)) (by simp) u
    · have huw : u ≠ w := by
        rintro rfl
        cases hw.symm.trans hu
        exact hne rfl
      rw [hin u]
      exact and_iff_left huw

theorem begin (hi : Ok s) (h : s.begin w = some s') : Ok s' := by
  obtain ⟨i, t, hw, ht, hcases, hout⟩ := hi.begin_cases h
  rcases hcases with ⟨hfut, rfl⟩ | ⟨-, rfl⟩
  -- the task begins: it is inside this worker, for the first time
  · obtain ⟨t', ht', hpop, hq, honly, hstage⟩ := hi.stage_of_running hw
    cases ht.symm.trans ht'
    obtain ⟨-, hruns, -⟩ := hstage.resolve_right fun hin => hout hin.1
    refine { hi with stage := fun j t' ht' => ?_, known := ?_, inside := fun u hu => ?_,
                     exits := fun call hcall => ?_ }
    · obtain ⟨t₀, ht₀, rfl⟩ := getElem?_modify_iff.1 ht'
      split
      · rename_i heq
        subst heq
        cases ht.symm.trans ht₀
        exact .inside w hq honly List.mem_cons_self hpop (by rw [hruns]) rfl
      · rename_i hne
        refine (hi.stage j t₀ ht₀).keep Iff.rfl (fun u => Iff.rfl) (fun u hu => ?_)
        have huw : u ≠ w := by
          rintro rfl
          cases hw.symm.trans hu
          exact hne rfl
        rw [List.mem_cons]
        exact or_iff_right huw
    · rw [List.length_modify]
      exact hi.known
    · rcases List.mem_cons.1 hu with rfl | hu
      · exact ⟨i, hw⟩
      · exact hi.inside u hu
    · exact (hi.exits call hcall).keep id (fun _ => rfl) (fun _ h => h)
  -- the task was cancelled before: it ends without having run
  · refine hi.endTask .cancelledAndNotified s.inside hw rfl fun u => ?_
    refine (and_iff_left_of_imp ?_).symm
    rintro hu rfl
    exact hout hu

theorem finish (hi : Ok s) {raised : Bool} (h : s.finish w raised = some s') : Ok s' := by
  obtain ⟨i, t, hw, -, -, rfl⟩ := hi.finish_cases h
  exact hi.endTask (.finished raised) (s.inside.filter (· ≠ w)) hw rfl fun u => by simp

/-- Cancelling a future before the function is called leaves the task in its stage, and afterwards
it does nothing. -/
theorem cancel (hi : Ok s) (h : s.step (.cancel i) = some s') : Ok s' := by
  cases h
  refine { hi with stage := fun j t ht => ?_, known := ?_, exits := fun call hcall => ?_ }
  · obtain ⟨t₀, ht₀, rfl⟩ := getElem?_modify_iff.1 ht
    have hkeep : ∀ t', s.Stage j t' → Stage { s with
        tasks := s.tasks.modify i fun t => { t with future := t.future.cancel } } j t' :=
      fun t' h => h.keep Iff.rfl (fun u => Iff.rfl) (fun u _ => Iff.rfl)
    split
    · apply hkeep
      cases hi.stage j t₀ ht₀ with
      | queued hq hnone hpop hruns hfut =>
        exact .queued hq hnone hpop hruns ((Future.unbegun_cancel _).trans hfut)
      | taken w hq honly hin hpop hruns hfut =>
        exact .taken w hq honly hin hpop hruns ((Future.unbegun_cancel _).trans hfut)
      | inside w hq honly hin hpop hruns hfut =>
        exact .inside w hq honly hin hpop hruns (by rw [hfut]; rfl)
      | settled w hq hnone hpop hruns hfut =>
        exact .settled w hq hnone hpop hruns (Future.done_cancel hfut)
    · exact hkeep _ (hi.stage j t₀ ht₀)
  · rw [List.length_modify]
    exact hi.known
  · exact (hi.exits call hcall).keep id (fun _ => rfl) (fun _ h => h)

/-- The calls of `__exit__` are steps of their own threads. -/
theorem setExit (hi : Ok s) {e : Nat} {call : ExitCall} (hnew : s.ExitOk call) :
    Ok { s with exits := s.exits.set e call } := by
  refine { hi with stage := fun i t ht => ?_, exits := fun c hc => ?_ }
  · exact (hi.stage i t ht).keep Iff.rfl (fun u => Iff.rfl) (fun u _ => Iff.rfl)
  · have hold : s.ExitOk c := by
      rcases List.mem_or_eq_of_mem_set hc with hc | rfl
      · exact hi.exits c hc
      · exact hnew
    exact hold.keep id (fun _ => rfl) (fun _ h => h)

theorem join (hi : Ok s) {e : Nat} (h : s.join e = some s') : Ok s' := by
  unfold WorkerExecutor.join at h
  split at h
  · rename_i he
    cases h
    -- the exit call takes the list of the workers to join
    have hclosed : s.ExitOk .closed := hi.exits _ (List.mem_of_getElem? he)
    exact hi.setExit ⟨hclosed, fun u hu => List.mem_range.1 hu,
      fun u hu => .inl (List.mem_range.2 hu)⟩
  · rename_i he
    cases h
    -- all workers joined
    obtain ⟨hclosed, -, hall⟩ : s.ExitOk (.joining []) := hi.exits _ (List.mem_of_getElem? he)
    exact hi.setExit ⟨hclosed, fun u hu => (hall u hu).resolve_left (by simp)⟩
  · rename_i w left he
    obtain ⟨hclosed, hlt, hall⟩ : s.ExitOk (.joining (w :: left)) :=
      hi.exits _ (List.mem_of_getElem? he)
    split at h
    · rename_i hended
      cases h
      -- the first of the list has exited, so it can leave the list
      refine hi.setExit ⟨hclosed, fun u hu => hlt u (List.mem_cons_of_mem w hu), fun u hu => ?_⟩
      rcases hall u hu with hmem | hexited
      · rcases List.mem_cons.1 hmem with rfl | hmem
        · exact .inr hended
        · exact .inl hmem
      · exact .inr hexited
    · cases h
  · cases h

/-- Every step keeps the invariant. -/
theorem step (hi : Ok s) {a : ExecutorAct} (h : s.step a = some s') : Ok s' := by
  cases a with
  | enter =>
    simp only [WorkerExecutor.step, stepPool] at h
    obtain ⟨p, hp, rfl⟩ := Option.map_eq_some_iff.1 h
    exact hi.callers (.inl rfl) (fun _ hc => .inl hc) hp
  | submit => exact hi.submit h
  | stop =>
    simp only [WorkerExecutor.step, stepPool] at h
    obtain ⟨p, hp, rfl⟩ := Option.map_eq_some_iff.1 h
    exact hi.callers (.inr (.inl rfl)) (fun _ hc => .inl hc) hp
  | cancel i => exact hi.cancel h
  | exit =>
    simp only [WorkerExecutor.step, stepPool] at h
    obtain ⟨p, hp, rfl⟩ := Option.map_eq_some_iff.1 h
    refine hi.callers (.inr (.inr rfl)) (fun call hc => ?_) hp
    rcases List.mem_append.1 hc with hc | hc
    · exact .inl hc
    · exact .inr ⟨rfl, List.mem_singleton.1 hc⟩
  | join e => exact hi.join h
  | loop w => exact hi.loop h
  | begin w => exact hi.begin h
  | finish w raised => exact hi.finish h

/-- Some worker will look at a queue that is not empty. -/
theorem attended (hi : Ok s) (hq : s.pool.st.queue ≠ []) : ∃ w, s.LooksAgain w := by
  -- some worker has not exited; it is looked at by its state
  obtain ⟨w, a, hw⟩ := hi.alive hq
  cases a with
  | top => exact ⟨w, .inl hw⟩
  | running i => exact ⟨w, .inr (.inl ⟨i, hw⟩)⟩
  | exited => exact absurd (hi.drained w hw).2 hq
  | waiting =>
    by_cases hm : w ∈ s.pool.st.cond.waiters
    · -- It sleeps, so as many wake-ups are on their way as there are tasks without a worker.
      have hcov := hi.pool.covered (List.ne_nil_of_mem hm)
      rw [List.countP_true] at hcov
      have hlen := List.length_pos_iff.2 hq
      -- either a worker is at the top of its loop, or a sleeper has been woken
      by_cases htops : 0 < s.pool.tops
      · obtain ⟨b, hb, htop⟩ := List.countP_pos_iff.1 htops
        obtain ⟨u, hu⟩ := List.getElem?_of_mem hb
        cases b with
        | top => exact ⟨u, .inl hu⟩
        | waiting => cases htop
        | running i => cases htop
        | exited => cases htop
      · obtain ⟨u, hu⟩ := List.exists_mem_of_length_pos (l := s.pool.st.cond.woken) (by omega)
        have hwait := hi.pool.asleep.onWay u hu
        have hnot : u ∉ s.pool.st.cond.waiters :=
          fun h => hi.pool.asleep.distinct.not_mem_woken h hu
        exact ⟨u, .inr (.inr ⟨hwait, hnot⟩)⟩
    · exact ⟨w, .inr (.inr ⟨hw, hm⟩)⟩

/-- An executor with the invariant settles its tasks. -/
theorem settles (hi : Ok s) : s.Settles := by
  refine ⟨hi.attended, fun t ht => ?_, hi.drained, submit_closed, fun hret t ht => ?_⟩
  · obtain ⟨i, hi'⟩ := List.getElem?_of_mem ht
    cases hi.stage i t hi' with
    | queued hq hnone hpop hruns hfut => simp [hpop, hruns]
    | taken w hq honly hin hpop hruns hfut => simp [hpop, hruns]
    | inside w hq honly hin hpop hruns hfut => simp [hpop, hruns]
    | settled w hq hnone hpop hruns hfut => simp [hpop, hruns]
  · obtain ⟨hclosed, hall⟩ : s.ExitOk .returned := hi.exits _ hret
    have hexited : ∀ (u i : Nat), s.pool.workers[u]? ≠ some (.running i) := by
      intro u i hu
      have hlt := (List.getElem?_eq_some_iff.1 hu).1
      cases hu.symm.trans (hall u hlt)
    obtain ⟨i, hi'⟩ := List.getElem?_of_mem ht
    cases hi.stage i t hi' with
    | queued hq hnone hpop hruns hfut =>
      obtain ⟨w, hw⟩ := hi.alive (List.ne_nil_of_mem hq)
      have hnil := (hi.drained w (hall w (List.getElem?_eq_some_iff.1 hw.choose_spec).1)).2
      rw [hnil] at hq
      cases hq
    | taken w hq honly hin hpop hruns hfut => exact absurd ((honly w).2 rfl) (hexited w i)
    | inside w hq honly hin hpop hruns hfut => exact absurd ((honly w).2 rfl) (hexited w i)
    | settled w hq hnone hpop hruns hfut => exact ⟨⟨w, hpop⟩, hfut⟩

end Ok

/-! ## The end of a closed executor -/

section Closed

variable {s s' : WorkerExecutor} {w : Nat}

/-- A closed pool stays closed, and a step of a worker takes from the work that is left. -/
theorem work_step (hi : Ok s) (hclosed : s.pool.st.closed = true) {a : ExecutorAct}
    (h : s.step a = some s') :
    s'.pool.st.closed = true ∧ (if a.worker.isSome then 1 else 0) + s'.work ≤ s.work := by
  have hcallers : ∀ {b : Act Nat} {p : Pool Nat}, (b = .enter ∨ b = .stop ∨ b = .exit) →
      s.pool.step b = some p → ∀ exits, p.st.closed = true ∧
        0 + work { s with pool := p, exits := exits } ≤ s.work := by
    intro b p hb hp exits
    obtain ⟨hq, hw, hc, -⟩ := callers_cases hb hp
    refine ⟨hc hclosed, ?_⟩
    simp only [work, hq, hw, Nat.zero_add, Nat.le_refl]
  -- The end of a task: its worker stops running, and its future has begun.
  have hend : ∀ {w i : Nat} {t : Submission} {f : Future} (inside : List Nat),
      s.pool.workers[w]? = some (.running i) → s.tasks[i]? = some t → f.unbegun = false →
      1 + work { s with
        pool := ⟨s.pool.st, s.pool.workers.set w .top⟩
        tasks := s.tasks.modify i fun t => { t with future := f }
        inside := inside } ≤ s.work := by
    intro w i t f inside hw ht hf
    have hrun := countP_set_add (p := Worker.isRunning) .top hw
    have hlive := countP_set_add (p := Worker.isLive) .top hw
    have htask := countP_modify_add (p := fun t : Submission => t.future.unbegun)
      (fun t => { t with future := f }) ht
    simp only [Worker.isRunning, Worker.isLive, hf, if_true, Bool.false_eq_true, if_false]
      at hrun hlive htask
    simp only [work]
    omega
  cases a with
  | enter =>
    simp only [WorkerExecutor.step, stepPool] at h
    obtain ⟨p, hp, rfl⟩ := Option.map_eq_some_iff.1 h
    exact hcallers (.inl rfl) hp s.exits
  | submit =>
    rw [WorkerExecutor.step, submit_closed hclosed] at h
    cases h
    exact ⟨hclosed, Nat.le_of_eq (Nat.zero_add _)⟩
  | stop =>
    simp only [WorkerExecutor.step, stepPool] at h
    obtain ⟨p, hp, rfl⟩ := Option.map_eq_some_iff.1 h
    exact hcallers (.inr (.inl rfl)) hp s.exits
  | cancel i =>
    cases h
    refine ⟨hclosed, ?_⟩
    have htask : (s.tasks.modify i fun t => { t with future := t.future.cancel }).countP
        (fun t => t.future.unbegun) = s.tasks.countP fun t => t.future.unbegun := by
      cases ht : s.tasks[i]? with
      | none => rw [List.modify_eq_self (List.getElem?_eq_none_iff.1 ht)]
      | some t =>
        have hcount := countP_modify_add (p := fun t : Submission => t.future.unbegun)
          (fun t => { t with future := t.future.cancel }) ht
        rw [Future.unbegun_cancel] at hcount
        exact Nat.add_right_cancel hcount
    simp only [work, htask]
    exact Nat.le_of_eq (Nat.zero_add _)
  | exit =>
    simp only [WorkerExecutor.step, stepPool] at h
    obtain ⟨p, hp, rfl⟩ := Option.map_eq_some_iff.1 h
    exact hcallers (.inr (.inr rfl)) hp (s.exits ++ [.closed])
  | join e =>
    have hsame : s'.pool = s.pool ∧ s'.tasks = s.tasks := by
      simp only [WorkerExecutor.step, WorkerExecutor.join] at h
      split at h
      · cases h
        exact ⟨rfl, rfl⟩
      · cases h
        exact ⟨rfl, rfl⟩
      · split at h
        · cases h
          exact ⟨rfl, rfl⟩
        · cases h
      · cases h
    simp only [work, hsame.1, hsame.2]
    exact ⟨hclosed, Nat.le_of_eq (Nat.zero_add _)⟩
  | loop w =>
    obtain ⟨p, hp, hs'⟩ := Option.map_eq_some_iff.1 h
    obtain ⟨a, hw, hfree, hopened, hc, hcases⟩ := loop_cases hp
    have hrun := fun b => countP_set_add (p := Worker.isRunning) b hw
    have hlive := fun b => countP_set_add (p := Worker.isLive) b hw
    have ha : a.isRunning = false ∧ a.isLive = true := by
      cases a with
      | top => exact ⟨rfl, rfl⟩
      | waiting => exact ⟨rfl, rfl⟩
      | running i => cases hfree
      | exited => cases hfree
    simp only [ha.1, ha.2, if_true, Bool.false_eq_true, if_false] at hrun hlive
    have hafter : ∀ b, p.workers = s.pool.workers.set w b → p.workers[w]? = some b := by
      intro b heq
      rw [heq, getElem?_set_iff hw, if_pos rfl]
    rcases hcases with ⟨i, rest, hq, hrest, -, hworkers⟩ | ⟨hq, hrest, -, -, hworkers⟩ |
      ⟨-, -, hopen, -⟩
    · rw [hafter _ hworkers] at hs'
      subst hs'
      refine ⟨hc.trans hclosed, ?_⟩
      have htask : (s.tasks.modify i fun t => { t with poppedBy := t.poppedBy ++ [w] }).countP
          (fun t => t.future.unbegun) = s.tasks.countP fun t => t.future.unbegun := by
        cases ht : s.tasks[i]? with
        | none => rw [List.modify_eq_self (List.getElem?_eq_none_iff.1 ht)]
        | some t =>
          exact Nat.add_right_cancel
            (countP_modify_add (p := fun t : Submission => t.future.unbegun)
            (fun t => { t with poppedBy := t.poppedBy ++ [w] }) ht)
      have hrun := hrun (.running i)
      have hlive := hlive (.running i)
      simp only [Worker.isRunning, Worker.isLive, if_true] at hrun hlive
      simp only [work, hq, hrest, hworkers, htask, ExecutorAct.worker, Option.isSome_some, if_true,
        List.length_cons]
      omega
    · rw [hafter _ hworkers] at hs'
      subst hs'
      refine ⟨hc.trans hclosed, ?_⟩
      have hrun := hrun .exited
      have hlive := hlive .exited
      simp only [Worker.isRunning, Worker.isLive, Bool.false_eq_true, if_false] at hrun hlive
      simp only [work, hq, hrest, hworkers, ExecutorAct.worker, Option.isSome_some, if_true]
      omega
    · cases hopen.symm.trans hclosed
  | begin w =>
    obtain ⟨i, t, hw, ht, ⟨hfut, rfl⟩ | ⟨hfut, rfl⟩, -⟩ := hi.begin_cases h
    · refine ⟨hclosed, ?_⟩
      have htask := countP_modify_add (p := fun t : Submission => t.future.unbegun)
        (fun t => { t with future := .running, runs := t.runs + 1 }) ht
      have hbefore : t.future.unbegun = true := by rw [hfut]; rfl
      have hafter : Future.running.unbegun = false := rfl
      simp only [hbefore, hafter, if_true, Bool.false_eq_true, if_false] at htask
      simp only [work, ExecutorAct.worker, Option.isSome_some, if_true]
      omega
    · exact ⟨hclosed, hend s.inside hw ht rfl⟩
  | finish w raised =>
    obtain ⟨i, t, hw, ht, hfut, rfl⟩ := hi.finish_cases h
    exact ⟨hclosed, hend _ hw ht rfl⟩

/-- Every live worker of a closed executor has a step. -/
theorem enabled (hi : Ok s) (hclosed : s.pool.st.closed = true) {a : Worker Nat}
    (hw : s.pool.workers[w]? = some a) (ha : a ≠ .exited) :
    ∃ act : ExecutorAct, act.worker = some w ∧ (s.step act).isSome := by
  cases a with
  | top => exact ⟨.loop w, rfl, by simp [WorkerExecutor.step, WorkerExecutor.loop, Pool.loop, hw]⟩
  | waiting =>
    refine ⟨.loop w, rfl, ?_⟩
    simp [WorkerExecutor.step, WorkerExecutor.loop, Pool.loop, hw, hi.awake hclosed]
  | running i =>
    obtain ⟨t, ht, -, -, -, hstage⟩ := hi.stage_of_running hw
    rcases hstage with ⟨hout, -, hfut⟩ | ⟨hin, -, hfut⟩
    · refine ⟨.begin w, rfl, ?_⟩
      simp only [WorkerExecutor.step, WorkerExecutor.begin, hw, if_neg hout, ht]
      cases hf : t.future with
      | cancelled => simp [Future.setRunningOrNotifyCancel, stepPool, Pool.step, hw]
      | _ => simp [Future.setRunningOrNotifyCancel]
    · refine ⟨.finish w false, rfl, ?_⟩
      simp [WorkerExecutor.step, WorkerExecutor.finish, hw, hin, ht, hfut, Future.settle, stepPool,
        Pool.step]
  | exited => exact absurd rfl ha

/-- In a run from a closed state the workers' steps are bounded by the work that is left. -/
theorem bounded (hi : Ok s) (hclosed : s.pool.st.closed = true) {as : List ExecutorAct}
    {t : WorkerExecutor} (hrun : executor.exec s as = some t) :
    as.countP (fun a => a.worker.isSome) + t.work ≤ s.work := by
  induction as generalizing s with
  | nil =>
    cases hrun
    simp
  | cons a as ih =>
    obtain ⟨u, hu, hrest⟩ := (Lts.exec_cons executor).1 hrun
    obtain ⟨hc, hwork⟩ := work_step hi hclosed hu
    have hle := ih (hi.step hu) hc hrest
    rw [List.countP_cons]
    omega

theorem exits_set {e : Nat} {call new : ExitCall} (he : s.exits[e]? = some call) :
    (s.exits.set e new)[e]? = some new :=
  List.getElem?_set_self (List.getElem?_eq_some_iff.1 he).1

/-- Once every worker has exited, the joins of a call of `__exit__` go through one after the
other. -/
theorem joins {left : List Nat} {e : Nat} (he : s.exits[e]? = some (.joining left))
    (hall : ∀ u ∈ left, s.pool.workers[u]? = some .exited) :
    ∃ n t, executor.exec s (List.replicate n (.join e)) = some t ∧
      t.exits[e]? = some .returned := by
  induction left generalizing s with
  | nil =>
    refine ⟨1, { s with exits := s.exits.set e .returned },
      (Lts.exec_cons executor).2 ⟨_, ?_, rfl⟩, exits_set he⟩
    simp only [executor, WorkerExecutor.step, WorkerExecutor.join, he]
  | cons u left ih =>
    have hstep : executor.step s (.join e) =
        some { s with exits := s.exits.set e (.joining left) } := by
      simp only [executor, WorkerExecutor.step, WorkerExecutor.join, he]
      rw [if_pos (hall u List.mem_cons_self)]
    obtain ⟨n, t, hrun, ht⟩ := ih (s := { s with exits := s.exits.set e (.joining left) })
      (exits_set he) fun v hv => hall v (List.mem_cons_of_mem u hv)
    exact ⟨n + 1, t, (Lts.exec_cons executor).2 ⟨_, hstep, hrun⟩, ht⟩

/-- When all workers have exited, the joins of an exit come to an end. -/
theorem returns (hi : Ok s)
    (hall : ∀ (w : Nat) (a : Worker Nat), s.pool.workers[w]? = some a → a = .exited) {e : Nat}
    (he : e < s.exits.length) : ∃ n t, executor.exec s (List.replicate n (.join e)) = some t ∧
      t.exits[e]? = some .returned := by
  have hexited : ∀ u < s.pool.workers.length, s.pool.workers[u]? = some .exited := by
    intro u hu
    rw [List.getElem?_eq_getElem hu, hall u _ (List.getElem?_eq_getElem hu)]
  obtain ⟨call, hcall⟩ : ∃ call, s.exits[e]? = some call := ⟨_, List.getElem?_eq_getElem he⟩
  cases call with
  | closed =>
    obtain ⟨n, t, hrun, ht⟩ := joins
      (s := { s with exits := s.exits.set e (.joining (List.range s.pool.workers.length)) })
      (exits_set hcall) fun u hu => hexited u (List.mem_range.1 hu)
    refine ⟨n + 1, t, (Lts.exec_cons executor).2 ⟨_, ?_, hrun⟩, ht⟩
    simp only [executor, WorkerExecutor.step, WorkerExecutor.join, hcall]
  | joining left =>
    obtain ⟨-, hlt, -⟩ : s.ExitOk (.joining left) := hi.exits _ (List.mem_of_getElem? hcall)
    exact joins hcall fun u hu => hexited u (hlt u hu)
  | returned => exact ⟨0, s, rfl, hcall⟩

end Closed

end WorkerExecutor

/-! ## Runs -/

/-- In every run of a `WorkerExecutor` each accepted task is popped at most once and called at most
once, a queued task has a worker that will look at the queue, and once a call of `__exit__` has
returned every accepted task has been popped by one worker and its future is done. A closed executor
gets there. -/
theorem executor_settles {s : WorkerExecutor} {as : List ExecutorAct}
    (hrun : executor.exec .start as = some s) :
    s.Settles ∧ (s.pool.st.closed = true → s.Finishes) := by
  have hok : s.Ok := Lts.exec_invariant (I := WorkerExecutor.Ok)
    (fun _ a _ hi hstep => hi.step (a := a) hstep) .start hrun
  exact ⟨hok.settles, fun hclosed => ⟨fun _ _ hw ha => WorkerExecutor.enabled hok hclosed hw ha,
    fun _ _ hrest => WorkerExecutor.bounded hok hclosed hrest,
    fun hall _ he => WorkerExecutor.returns hok hall he⟩⟩

/-- Two tasks: the first one raises after the owner has left, the second one is cancelled in the
queue. A third `submit` comes after the closing. -/
def twoSubmissions : List ExecutorAct :=
  [.enter, .submit, .loop 0, .begin 0, .submit, .cancel 1, .exit, .submit, .join 0, .loop 1,
    .begin 1, .loop 1, .finish 0 true, .loop 0, .join 0, .join 0, .join 0]

theorem executor_settles_twoSubmissions :
    ∃ s, executor.exec .start twoSubmissions = some s ∧ s.Settles ∧ s.Finishes ∧
      s.exits = [.returned] ∧
      s.tasks = [⟨.finished true, [0], 1⟩, ⟨.cancelledAndNotified, [1], 0⟩] := by
  have hrun : (executor.exec .start twoSubmissions).isSome := by decide
  have hsettles := executor_settles (Option.some_get hrun).symm
  refine ⟨_, (Option.some_get hrun).symm, hsettles.1, hsettles.2 rfl, rfl, rfl⟩

end LocalPost.Threadtools.Executor
