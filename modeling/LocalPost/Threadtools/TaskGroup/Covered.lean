import LocalPost.Threadtools.TaskGroup.Errors

/-!
# Calls from any thread

A thread that is neither the body nor a task of the group can be between the test of `_closed` and
the append to `_tasks` when `__exit__` looks for the last time. Its task is then not waited for
(`outlived`). When no call stands there at the closing, every task that was created is in `_tasks`
or done, and `__exit__` waits for those in `_tasks` when it reads their exceptions, also for the
ones that came behind its last look. A future that is cancelled while `__exit__` stands in its
`exception()` takes `__exit__` out of the block, past the ones that are still to be read
(`interrupted_with_pending`).
-/

set_option autoImplicit false

namespace LocalPost.Threadtools.TaskGroup

open LocalPost.Core

/-- The futures that `__exit__` has still to read, from the closing on. -/
def Block.unread : Block → Option (List Nat)
  | .collecting _ failed _ => some failed
  | .asking _ c failed _ => some (c :: failed)
  | .left _ _ => some []
  | .interrupted _ => some []
  | _ => none

theorem Future.done_of_isCancelled {f : Future} (h : f.isCancelled = true) : f.done = true := by
  cases f with
  | cancelled => rfl
  | cancelledAndNotified => rfl
  | _ => cases h

namespace Group

variable {s t : Group}

theorem undone_of_done {c : Nat} {f : Future} (hfuture : s.futureAt c = some f)
    (hdone : f.done = true) : s.undone c = false := by
  rw [undone, hfuture, Option.any_some, hdone]
  rfl

/-- When the block has been left every task of the group is done, and behind a `create_task` that
raised there is no task. -/
structure Covered (s : Group) : Prop where
  done : s.block.over = true → ∀ k ∈ s.calls, ∀ f, k.task = some f → f.done = true
  raised : ∀ k ∈ s.calls, k.phase = .raised → k.future = none

/-- The `exception()` in which `__exit__` stands is that of a future that has been cancelled, and
one that comes behind it is not done. -/
def cutShort (s : Group) : Bool :=
  match s.block with
  | .asking _ c failed _ => (s.futureAt c).any Future.isCancelled && failed.any s.undone
  | _ => false

/-- The condition on a step: the group is closed when no call is between the test of `_closed` and
its append; the executor's `submit` does not raise with the task left in the queue; and when a
future is cancelled in whose `exception()` `__exit__` stands, those behind it are done. -/
def InTime (s : Group) : Act → Prop
  | .close => ∀ k ∈ s.calls, k.phase.unregistered = false
  | .submit _ out => out ≠ .queued
  | .ask => s.cutShort = false
  | _ => True

instance (s : Group) (a : Act) : Decidable (s.InTime a) := by
  cases a <;> unfold InTime <;> infer_instance

/-- What runs under the condition keep: from the closing on no call is on its way to `_tasks`, and
the tasks that are not done are still to be read. -/
structure Waited (s : Group) : Prop where
  raised : ∀ k ∈ s.calls, k.phase = .raised → k.future = none
  closed : ∀ unread, s.block.unread = some unread → s.closed = true
  unregistered : s.closed = true → ∀ k ∈ s.calls, k.phase.unregistered = false
  done : ∀ unread, s.block.unread = some unread → ∀ (c : Nat) (k : Call) (f : Future),
    s.calls[c]? = some k → k.task = some f → f.done = true ∨ c ∈ unread

/-- Where tasks that are not done are still to be read, the calls are covered. -/
theorem Waited.covered (h : s.Waited) : s.Covered := by
  refine ⟨fun hover k hk f hf => ?_, h.raised⟩
  obtain ⟨c, hc⟩ := List.mem_iff_getElem?.1 hk
  have hunread : s.block.unread = some [] := by
    cases hblock : s.block with
    | left exc group => rfl
    | interrupted exc => rfl
    | _ =>
      rw [hblock] at hover
      cases hover
  exact (h.done [] hunread c k f hc hf).resolve_right List.not_mem_nil

theorem waited_start : start.Waited :=
  ⟨fun k hk => absurd hk List.not_mem_nil, fun unread h => (by cases h), fun h => (by cases h),
    fun unread h => (by cases h)⟩

/-- The block moves on before the closing. -/
theorem Waited.blocked (h : s.Waited) {opened : Bool} {block : Block}
    (hblock : block.unread = none) :
    ({ s with opened := opened, block := block } : Group).Waited := by
  refine ⟨h.raised, fun unread hunread => ?_, h.unregistered, fun unread hunread => ?_⟩
  · rw [show block.unread = some unread from hunread] at hblock
    cases hblock
  · rw [show block.unread = some unread from hunread] at hblock
    cases hblock

/-- The block moves on behind the closing: what is no longer to be read is done. -/
theorem Waited.reads (h : s.Waited) {before behind : List Nat} {block : Block}
    (hbefore : s.block.unread = some before) (hbehind : block.unread = some behind)
    (hdone : ∀ c ∈ before, c ∉ behind → s.undone c = false) :
    ({ s with block := block } : Group).Waited := by
  refine ⟨h.raised, fun _ _ => h.closed before hbefore, h.unregistered,
    fun unread hunread c k f hk hf => ?_⟩
  have hunread : some behind = some unread := hbehind.symm.trans hunread
  cases hunread
  rcases h.done before hbefore c k f hk hf with hd | hmem
  · exact .inl hd
  · by_cases hlater : c ∈ behind
    · exact .inr hlater
    · refine .inl ?_
      have hundone := hdone c hmem hlater
      rw [undone, futureAt, show s.calls[c]? = some k from hk, Option.bind_some,
        (Call.task_eq_some_iff.1 hf).2] at hundone
      simpa using hundone

/-- A new call is not past the test yet. -/
theorem Waited.called (h : s.Waited) {caller : Caller} :
    ({ s with calls := s.calls ++ [⟨caller, .checking, none, false⟩] } : Group).Waited := by
  have hnew : ∀ {c : Nat} {k : Call} {f : Future},
      (s.calls ++ [⟨caller, .checking, none, false⟩])[c]? = some k → k.task = some f →
        s.calls[c]? = some k := by
    intro c k f hk hf
    rcases getElem?_concat_iff.1 hk with hk | ⟨-, rfl⟩
    · exact hk
    · cases hf
  refine ⟨fun k hk => ?_, h.closed, fun hclosed k hk => ?_,
    fun unread hunread c k f hk hf => h.done unread hunread c k f (hnew hk hf) hf⟩
  · rcases List.mem_append.1 hk with hk | hk
    · exact h.raised k hk
    · rw [List.mem_singleton.1 hk]
      exact fun _ => rfl
  · rcases List.mem_append.1 hk with hk | hk
    · exact h.unregistered hclosed k hk
    · rw [List.mem_singleton.1 hk]
      rfl

/-- A change of a call in time leaves what is not done to be read. -/
theorem Waited.changes (hs : s.Sound) (h : s.Waited) {a : Act} (ha : s.InTime a) {c : Nat}
    {k k' : Call}
    {tasks : List Nat} (hk : s.calls[c]? = some k) (hchanges : Changes s c k a k' tasks) :
    ({ s with calls := s.calls.set c k', tasks := tasks } : Group).Waited := by
  have hfits := hs.fits c k hk
  have hmem := List.mem_of_getElem? hk
  -- behind the closing no task is new
  have hold : s.closed = true → ∀ {j : Nat} {kj : Call} {f' : Future},
    (s.calls.set c k')[j]? = some kj →
      kj.task = some f' → ∃ k₀ f, s.calls[j]? = some k₀ ∧ k₀.task = some f ∧
        (f.done = true → f'.done = true) := by
    intro hclosed j kj f' hj hf'
    rw [getElem?_set_iff hk] at hj
    split at hj
    · rename_i heq
      subst heq
      subst hj
      rcases hchanges.task hfits hf' with hphase | ⟨f, hf, hdone⟩
      · have hfalse := h.unregistered hclosed k hmem
        rw [hphase] at hfalse
        cases hfalse
      · exact ⟨k, f, hk, hf, fun hd => (hdone hd).1⟩
    · exact ⟨kj, f', hj, hf', id⟩
  refine ⟨fun kj hkj => ?_, h.closed, fun hclosed kj hkj => ?_, ?_⟩
  · rcases List.mem_or_eq_of_mem_set hkj with hold | rfl
    · exact h.raised kj hold
    · intro hraised
      have hbefore : k.phase = .raised → k.future = none := h.raised k hmem
      cases hchanges with
      | passes hphase hclosed => cases hraised
      | refuses hphase =>
        exact hfits.unsubmitted (by rcases hphase with hphase | hphase <;> rw [hphase] <;> rfl)
      | accepts hphase => cases hraised
      | queues hphase => exact absurd rfl ha
      | appends hphase => cases hraised
      | finds hphase hdone => cases hraised
      | hooks hphase => cases hraised
      | notifies hphase => cases hraised
      | begins hfuture =>
        rw [hbefore hraised] at hfuture
        cases hfuture
      | skips hfuture =>
        rw [hbefore hraised] at hfuture
        cases hfuture
      | finishes hfuture hcalling =>
        rw [hbefore hraised] at hfuture
        cases hfuture
      | cancels hfuture =>
        rw [hbefore hraised] at hfuture
        cases hfuture
      | calls_back hdone => exact hbefore hraised
  · rcases List.mem_or_eq_of_mem_set hkj with hold | rfl
    · exact h.unregistered hclosed kj hold
    · have hbefore := h.unregistered hclosed k hmem
      cases hchanges with
      | passes hphase hopen =>
        rw [show s.closed = true from hclosed] at hopen
        cases hopen
      | accepts hphase =>
        rw [hphase] at hbefore
        cases hbefore
      | begins hfuture => exact hbefore
      | skips hfuture => exact hbefore
      | finishes hfuture hcalling => exact hbefore
      | cancels hfuture => exact hbefore
      | calls_back hdone => exact hbefore
      | _ => rfl
  · intro unread hunread j kj f' hj hf'
    obtain ⟨k₀, f, hk₀, hf, hdone⟩ := hold (h.closed unread hunread) hj hf'
    exact (h.done unread hunread j k₀ f hk₀ hf).imp_left hdone

/-- At the closing every task is in `_tasks` or done. -/
theorem Waited.closes (hs : s.Sound) (h : s.Waited) (ha : s.InTime .close) (exc : Option Exc) :
    ({ s with closed := true, block := .collecting exc s.tasks [] } : Group).Waited := by
  refine ⟨h.raised, fun _ _ => rfl, fun _ => ha, fun unread hunread c k f hk hf => ?_⟩
  cases hunread
  obtain ⟨hraised, hfuture⟩ := Call.task_eq_some_iff.1 hf
  have hfits := hs.fits c k hk
  have hunregistered := ha k (List.mem_of_getElem? hk)
  have hregistered : k.phase.registered = true := by
    cases hphase : k.phase with
    | checking =>
      rw [hfits.unsubmitted (by rw [hphase]; rfl)] at hfuture
      cases hfuture
    | submitting => rw [hphase] at hunregistered; cases hunregistered
    | appending => rw [hphase] at hunregistered; cases hunregistered
    | raised => exact absurd hphase hraised
    | hooking => rfl
    | notifying => rfl
    | returned => rfl
  rcases hfits.kept hregistered with hmem | hfinished
  · exact .inr hmem
  · cases hfuture.symm.trans hfinished
    exact .inl rfl

/-- A move in time leaves what is not done to be read. -/
theorem Waited.moves (hs : s.Sound) (h : s.Waited) {a : Act} (ha : s.InTime a)
    (hmoves : Moves s a t) :
    t.Waited := by
  cases hmoves with
  | stays => exact h
  | enters hblock => exact h.blocked rfl
  | calls hmay => exact h.called
  | changes hk hchanges => exact h.changes hs ha hk hchanges
  | exits hblock hcalling => exact h.blocked rfl
  | drained hblock hpending => exact h.blocked rfl
  | waits hblock => exact h.blocked rfl
  | wakes hblock => exact h.blocked rfl
  | @closes exc hblock => exact h.closes hs ha exc
  | @skips exc c failed allErrors f hblock hfuture hcancelled =>
    -- the member that is skipped is done, for it is cancelled
    refine h.reads (by rw [hblock]; rfl) rfl fun j hj hlater => ?_
    rcases List.mem_cons.1 hj with rfl | hj
    · exact undone_of_done hfuture (Future.done_of_isCancelled hcancelled)
    · exact absurd hj hlater
  | @asks exc c failed allErrors f hblock hfuture hcancelled =>
    exact h.reads (by rw [hblock]; rfl) rfl fun j hj hlater => absurd hj hlater
  | @interrupts exc c failed allErrors f hblock hfuture hcancelled =>
    refine h.reads (by rw [hblock]; rfl) rfl fun j hj _ => ?_
    rcases List.mem_cons.1 hj with rfl | hj
    · exact undone_of_done hfuture (Future.done_of_isCancelled hcancelled)
    · -- the condition: those behind the cancelled one are done
      have hshort : s.cutShort = false := ha
      rw [cutShort, hblock] at hshort
      simp only [hfuture, Option.any_some, hcancelled, Bool.true_and] at hshort
      simpa using List.any_eq_false.1 hshort j hj
  -- the member whose error is read is done
  | @collects exc c failed allErrors f hblock hfuture hdone =>
    refine h.reads (by rw [hblock]; rfl) rfl fun j hj hlater => ?_
    rcases List.mem_cons.1 hj with rfl | hj
    · exact undone_of_done hfuture hdone
    · exact absurd hj hlater
  | concludes hblock =>
    exact h.reads (by rw [hblock]; rfl) rfl fun j hj _ => absurd hj List.not_mem_nil

end Group

/-- In every run in which no call is between the test of `_closed` and its append when the group is
closed, in which no `submit` raises with its task left in the queue, and in which a future that is
cancelled under the `exception()` of `__exit__` has only done ones behind it: in every state in
which the block has been left every task of the group is done, whoever called `create_task`, and a
call that raised has no task. -/
theorem covered_of_inTime {as : List Act} (h : system.Meets Group.InTime .start as) :
    system.Throughout Group.Covered .start as := by
  refine Lts.Throughout.mono (fun s => Group.Waited.covered) ?_
  exact Lts.throughout_of_meets (I := Group.Sound) (P := Group.Waited)
    (fun s a t hs hstep => hs.moves (Group.moves_of_step hstep))
    (fun s a t hs hP hC hstep => hP.moves hs hC (Group.moves_of_step hstep)) Group.sound_start
    Group.waited_start h

/-- Two threads' tasks come behind the last look and before the closing. One is cancelled under the
`exception()` of `__exit__`, when the other is done. -/
def behindTheLook : List Act :=
  [.enter, .exit none, .drain, .call .foreign, .check 0, .submit 0 .accepted, .append 0, .hook 0,
    .call .foreign, .check 1, .submit 1 .accepted, .append 1, .hook 1, .close, .collect, .begin 1,
    .finish 1 none, .callback 1, .cancel 0, .ask]

theorem covered_of_inTime_behindTheLook : system.Throughout Group.Covered .start behindTheLook :=
  covered_of_inTime (by decide)

/-- A thread has passed the test of `_closed` when the body ends. -/
def overtaken : List Act :=
  [.enter, .call .foreign, .check 0, .exit none, .drain, .close, .conclude, .submit 0 .accepted,
    .append 0, .hook 0]

/-- `__exit__` has returned without the task, and `create_task` returns its future, which is
pending. Its function runs outside the block. -/
theorem outlived :
    ∃ t, system.exec .start overtaken = some t ∧ t.block = .left none none ∧ t.tasks = [0] ∧
      t.calls = [⟨.foreign, .returned, some .pending, true⟩] ∧
        (system.step t (.begin 0)).isSome = true ∧
      ¬t.Covered := by
  refine ⟨_, rfl, rfl, rfl, rfl, rfl, fun h => ?_⟩
  have hdone := h.done rfl _ List.mem_cons_self .pending rfl
  cases hdone

/-- Two threads' tasks come behind the last look; the first is cancelled when `__exit__` stands in
its `exception()`. -/
def cancelledUnderTheRead : List Act :=
  [.enter, .exit none, .drain, .call .foreign, .check 0, .submit 0 .accepted, .append 0, .hook 0,
    .call .foreign, .check 1, .submit 1 .accepted, .append 1, .hook 1, .close,
      .collect, .cancel 0, .ask]

/-- The `CancelledError` comes out of `__exit__`, and the other task is still pending. -/
theorem interrupted_with_pending :
    ∃ t, system.exec .start cancelledUnderTheRead = some t ∧ t.block = .interrupted none ∧
      t.futureAt 1 = some .pending ∧ ¬t.Covered := by
  refine ⟨_, rfl, rfl, rfl, fun h => ?_⟩
  have hdone := h.done rfl _ (List.mem_cons_of_mem _ List.mem_cons_self) .pending rfl
  cases hdone

end LocalPost.Threadtools.TaskGroup
