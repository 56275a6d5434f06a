import LocalPost.Threadtools.TaskGroup.State

/-!
# What every run of a group keeps

`Changes` and `Moves` say what a step does, with the guards it was taken under. From them `Sound`: a
call has a future from its submission on, a task that calls has not ended, and what is registered
stays in `_tasks` until it has ended without an exception.
-/

set_option autoImplicit false

namespace LocalPost.Threadtools.TaskGroup

open LocalPost.Core

/-- What a step of call `c`, or of its future, makes of the call `k` and of `_tasks`. -/
inductive Changes (s : Group) (c : Nat) (k : Call) : Act → Call → List Nat → Prop where
  | passes (hphase : k.phase = .checking) (hclosed : s.closed = false) :
      Changes s c k (.check c) { k with phase := .submitting } s.tasks
  | refuses {a : Act} (hphase : k.phase = .checking ∨ k.phase = .submitting) :
      Changes s c k a { k with phase := .raised } s.tasks
  | accepts (hphase : k.phase = .submitting) :
      Changes s c k (.submit c .accepted)
        { k with phase := .appending, future := some .pending } s.tasks
  | queues (hphase : k.phase = .submitting) :
      Changes s c k (.submit c .queued) { k with phase := .raised, future := some .pending } s.tasks
  | appends (hphase : k.phase = .appending) :
      Changes s c k (.append c) { k with phase := .hooking } (s.tasks ++ [c])
  | finds (hphase : k.phase = .hooking) (hdone : k.future.any Future.done = true) :
      Changes s c k (.hook c) { k with phase := .notifying } s.tasks
  | hooks (hphase : k.phase = .hooking) :
      Changes s c k (.hook c) { k with phase := .returned, hooked := true } s.tasks
  | notifies (hphase : k.phase = .notifying) :
      Changes s c k (.notify c) { k with phase := .returned } (s.onDone c k)
  | begins (hfuture : k.future = some .pending) :
      Changes s c k (.begin c) { k with future := some .running } s.tasks
  | skips (hfuture : k.future = some .cancelled) :
      Changes s c k (.begin c) { k with future := some .cancelledAndNotified } s.tasks
  | finishes {exception : Option Exc} (hfuture : k.future = some .running)
      (hcalling : s.calling (.member c) = false) :
      Changes s c k (.finish c exception) { k with future := some (.finished exception) } s.tasks
  | cancels {f : Future} (hfuture : k.future = some f) :
      Changes s c k (.cancel c) { k with future := some f.cancel } s.tasks
  | calls_back (hdone : k.future.any Future.done = true) :
      Changes s c k (.callback c) { k with hooked := false } (s.onDone c k)

/-- What a step makes of the group. -/
inductive Moves (s : Group) : Act → Group → Prop where
  | stays : Moves s .enter s
  | enters (hblock : s.block = .outside) : Moves s .enter { s with opened := true, block := .body }
  | calls {caller : Caller} (hmay : s.mayCall caller = true) :
      Moves s (.call caller) { s with calls := s.calls ++ [⟨caller, .checking, none, false⟩] }
  | changes {a : Act} {c : Nat} {k k' : Call} {tasks : List Nat} (hk : s.calls[c]? = some k)
      (hchanges : Changes s c k a k' tasks) :
      Moves s a { s with calls := s.calls.set c k', tasks := tasks }
  | exits {exc : Option Exc} (hblock : s.block = .body) (hcalling : s.calling .body = false) :
      Moves s (.exit exc) { s with block := .draining exc }
  | drained {exc : Option Exc} (hblock : s.block = .draining exc)
    (hpending : s.tasks.filter s.undone = []) :
      Moves s .drain { s with block := .closing exc }
  | waits {exc : Option Exc} (hblock : s.block = .draining exc) :
      Moves s .drain { s with block := .waiting exc (s.tasks.filter s.undone) }
  | wakes {exc : Option Exc} {pending : List Nat} (hblock : s.block = .waiting exc pending) :
      Moves s .wake { s with block := .draining exc }
  | closes {exc : Option Exc} (hblock : s.block = .closing exc) :
      Moves s .close { s with closed := true, block := .collecting exc s.tasks [] }
  | skips {exc : Option Exc} {c : Nat} {failed : List Nat} {allErrors : List Exc} {f : Future}
      (hblock : s.block = .collecting exc (c :: failed) allErrors) (hfuture : s.futureAt c = some f)
      (hcancelled : f.isCancelled = true) :
      Moves s .collect { s with block := .collecting exc failed allErrors }
  | asks {exc : Option Exc} {c : Nat} {failed : List Nat} {allErrors : List Exc} {f : Future}
      (hblock : s.block = .collecting exc (c :: failed) allErrors) (hfuture : s.futureAt c = some f)
      (hcancelled : f.isCancelled = false) :
      Moves s .collect { s with block := .asking exc c failed allErrors }
  | interrupts {exc : Option Exc} {c : Nat} {failed : List Nat} {allErrors : List Exc} {f : Future}
      (hblock : s.block = .asking exc c failed allErrors) (hfuture : s.futureAt c = some f)
      (hcancelled : f.isCancelled = true) :
      Moves s .ask { s with block := .interrupted exc }
  | collects {exc : Option Exc} {c : Nat} {failed : List Nat} {allErrors : List Exc} {f : Future}
      (hblock : s.block = .asking exc c failed allErrors) (hfuture : s.futureAt c = some f)
      (hdone : f.done = true) :
      Moves s .ask { s with block := .collecting exc failed (allErrors ++ f.exception.toList) }
  | concludes {exc : Option Exc} {allErrors : List Exc}
    (hblock : s.block = .collecting exc [] allErrors) :
      Moves s .conclude { s with
        block := .left exc
          (if Group.merged exc allErrors = [] then none else some (Group.merged exc allErrors)) }

namespace Group

variable {s t : Group}

theorem update_some {c : Nat} {f : Call → Option (Call × List Nat)} (h : s.update c f = some t) :
    ∃ k k' tasks, s.calls[c]? = some k ∧ f k = some (k', tasks) ∧
      t = { s with calls := s.calls.set c k', tasks := tasks } := by
  rw [update] at h
  split at h
  · rename_i k hk
    obtain ⟨⟨k', tasks⟩, hf, rfl⟩ := Option.map_eq_some_iff.1 h
    exact ⟨k, k', tasks, hk, hf, rfl⟩
  · cases h

/-- A step through `update` is one of the changes. -/
theorem moves_update {a : Act} {c : Nat} {f : Call → Option (Call × List Nat)}
    (hf : ∀ k k' tasks, f k = some (k', tasks) → Changes s c k a k' tasks)
    (h : s.update c f = some t) : Moves s a t := by
  obtain ⟨k, k', tasks, hk, hfk, rfl⟩ := update_some h
  exact .changes hk (hf k k' tasks hfk)

/-- What the test of a call changes. -/
theorem changes_check {c : Nat} {k k' : Call} {tasks : List Nat}
    (h : s.check k = some (k', tasks)) : Changes s c k (.check c) k' tasks := by
  rw [check] at h
  split at h
  · rename_i hphase
    cases h
    split
    · exact .refuses (.inl hphase)
    · rename_i hopen
      refine .passes hphase ?_
      cases hclosed : s.closed with
      | false => rfl
      | true => simp [hclosed] at hopen
  · cases h

/-- What the submission of a call changes. -/
theorem changes_submit {c : Nat} {out : Submit} {k k' : Call} {tasks : List Nat}
    (h : s.submit out k = some (k', tasks)) : Changes s c k (.submit c out) k' tasks := by
  rw [submit.eq_def] at h
  split at h
  · rename_i hphase
    cases h
    exact .accepts hphase
  · rename_i hphase
    cases h
    exact .refuses (.inr hphase)
  · rename_i hphase
    cases h
    exact .queues hphase
  · cases h

theorem changes_append {c : Nat} {k k' : Call} {tasks : List Nat}
    (h : s.append c k = some (k', tasks)) : Changes s c k (.append c) k' tasks := by
  rw [append] at h
  split at h
  · rename_i hphase
    cases h
    exact .appends hphase
  · cases h

/-- What the hook of a call changes. -/
theorem changes_hook {c : Nat} {k k' : Call} {tasks : List Nat} (h : s.hook k = some (k', tasks)) :
    Changes s c k (.hook c) k' tasks := by
  rw [hook] at h
  split at h
  · rename_i hphase
    split at h
    · rename_i hdone
      cases h
      exact .finds hphase hdone
    · cases h
      exact .hooks hphase
  · cases h

theorem changes_notify {c : Nat} {k k' : Call} {tasks : List Nat}
    (h : s.notify c k = some (k', tasks)) : Changes s c k (.notify c) k' tasks := by
  rw [notify] at h
  split at h
  · rename_i hphase
    cases h
    exact .notifies hphase
  · cases h

/-- What the beginning of a call's task changes. -/
theorem changes_begin {c : Nat} {k k' : Call} {tasks : List Nat}
    (h : s.begin k = some (k', tasks)) : Changes s c k (.begin c) k' tasks := by
  rw [begin] at h
  split at h
  · rename_i hfuture
    cases h
    exact .begins hfuture
  · rename_i hfuture
    cases h
    exact .skips hfuture
  · cases h

/-- What the end of a call's task changes. -/
theorem changes_finish {c : Nat} {exception : Option Exc} {k k' : Call} {tasks : List Nat}
    (h : s.finish c exception k = some (k', tasks)) : Changes s c k
    (.finish c exception) k' tasks := by
  rw [finish] at h
  split at h
  · rename_i hfuture
    split at h
    · cases h
    · rename_i hcalling
      cases h
      exact .finishes hfuture (Bool.eq_false_iff.2 hcalling)
  · cases h

theorem changes_cancel {c : Nat} {k k' : Call} {tasks : List Nat}
    (h : s.cancel k = some (k', tasks)) : Changes s c k (.cancel c) k' tasks := by
  rw [cancel] at h
  split at h
  · rename_i f hfuture
    cases h
    exact .cancels hfuture
  · cases h

theorem changes_callback {c : Nat} {k k' : Call} {tasks : List Nat}
    (h : s.callback c k = some (k', tasks)) : Changes s c k (.callback c) k' tasks := by
  rw [callback] at h
  split at h
  · rename_i hdone
    cases h
    exact .calls_back (Bool.and_eq_true_iff.1 hdone).2
  · cases h

/-- Every step is one of the moves. -/
theorem moves_of_step {a : Act} (h : s.step a = some t) : Moves s a t := by
  cases a with
  | enter =>
    rw [step, enter] at h
    split at h
    · rename_i hblock
      split at h
      · cases h
        exact .stays
      · cases h
        exact .enters hblock
    · cases h
  | call caller =>
    rw [step] at h
    split at h
    · rename_i hmay
      cases h
      exact .calls hmay
    · cases h
  -- The steps of one call touch its own record and the tasks.
  | check c => exact moves_update (fun k k' tasks hf => changes_check hf) h
  | submit c out => exact moves_update (fun k k' tasks hf => changes_submit hf) h
  | append c => exact moves_update (fun k k' tasks hf => changes_append hf) h
  | hook c => exact moves_update (fun k k' tasks hf => changes_hook hf) h
  | notify c => exact moves_update (fun k k' tasks hf => changes_notify hf) h
  | begin c => exact moves_update (fun k k' tasks hf => changes_begin hf) h
  | finish c exception => exact moves_update (fun k k' tasks hf => changes_finish hf) h
  | cancel c => exact moves_update (fun k k' tasks hf => changes_cancel hf) h
  | callback c => exact moves_update (fun k k' tasks hf => changes_callback hf) h
  | exit exc =>
    rw [step, exit] at h
    split at h
    · rename_i hblock
      split at h
      · cases h
      · rename_i hcalling
        cases h
        exact .exits hblock (Bool.eq_false_iff.2 hcalling)
    · cases h
  | drain =>
    rw [step, drain] at h
    split at h
    · rename_i exc hblock
      dsimp only at h
      split at h
      · rename_i hpending
        cases h
        exact .drained hblock hpending
      · cases h
        exact .waits hblock
    · cases h
  | wake =>
    rw [step, wake] at h
    split at h
    · rename_i exc pending hblock
      split at h
      · cases h
        exact .wakes hblock
      · cases h
    · cases h
  | close =>
    rw [step, close] at h
    split at h
    · rename_i exc hblock
      cases h
      exact .closes hblock
    · cases h
  | collect =>
    rw [step, collect] at h
    split at h
    · rename_i exc c failed allErrors hblock
      split at h
      · rename_i f hfuture
        split at h
        · rename_i hcancelled
          cases h
          exact .skips hblock hfuture hcancelled
        · rename_i hcancelled
          cases h
          exact .asks hblock hfuture (Bool.eq_false_iff.2 hcancelled)
      · cases h
    · cases h
  | ask =>
    rw [step, ask] at h
    split at h
    · rename_i exc c failed allErrors hblock
      split at h
      · rename_i f hfuture
        split at h
        · rename_i hcancelled
          cases h
          exact .interrupts hblock hfuture hcancelled
        · split at h
          · rename_i hdone
            cases h
            exact .collects hblock hfuture hdone
          · cases h
      · cases h
    · cases h
  | conclude =>
    rw [step, conclude] at h
    split at h
    · rename_i exc allErrors hblock
      cases h
      exact .concludes hblock
    · cases h

/-! ## The invariant -/

/-- Call `c` in the group. -/
structure Fits (s : Group) (c : Nat) (k : Call) : Prop where
  unsubmitted : k.phase.unsubmitted = true → k.future = none
  submitted : k.phase.submitted = true → k.future ≠ none
  kept : k.phase.registered = true → c ∈ s.tasks ∨ k.future = some (.finished none)
  body : k.caller = .body → k.phase.inProgress = true → s.block = .body
  member : ∀ i, k.caller = .member i → i < c ∧
    (k.phase.inProgress = true → ∃ m, s.calls[i]? = some m ∧ m.task = some .running)

/-- What every run keeps. -/
structure Sound (s : Group) : Prop where
  fits : ∀ c k, s.calls[c]? = some k → s.Fits c k
  tasks : ∀ c ∈ s.tasks, ∃ k, s.calls[c]? = some k ∧ k.phase.registered = true
  nodup : s.tasks.Nodup

theorem sound_start : start.Sound :=
  ⟨fun c k h => (by cases h), fun c h => absurd h List.not_mem_nil, List.nodup_nil⟩

end Group

theorem Call.task_eq_some_iff {k : Call} {f : Future} :
    k.task = some f ↔ k.phase ≠ .raised ∧ k.future = some f := by
  rw [Call.task]
  split
  · rename_i hraised
    exact ⟨fun h => (by cases h), fun h => absurd hraised h.1⟩
  · rename_i hraised
    exact ⟨fun h => ⟨hraised, h⟩, fun h => h.2⟩

namespace Changes

variable {s : Group} {c : Nat} {k k' : Call} {a : Act} {tasks : List Nat}

theorem caller (h : Changes s c k a k' tasks) : k'.caller = k.caller := by
  cases h <;> rfl

/-- A call in progress was in progress before. -/
theorem inProgress (h : Changes s c k a k' tasks) (hk' : k'.phase.inProgress = true) :
    k.phase.inProgress = true := by
  cases h with
  | passes hphase hclosed => rw [hphase]; rfl
  | refuses hphase => cases hk'
  | accepts hphase => rw [hphase]; rfl
  | queues hphase => cases hk'
  | appends hphase => rw [hphase]; rfl
  | finds hphase hdone => rw [hphase]; rfl
  | hooks hphase => cases hk'
  | notifies hphase => cases hk'
  | begins hfuture => exact hk'
  | skips hfuture => exact hk'
  | finishes hfuture hcalling => exact hk'
  | cancels hfuture => exact hk'
  | calls_back hdone => exact hk'

theorem mem_onDone {j : Nat} (hj : j ≠ c) : j ∈ s.onDone c k ↔ j ∈ s.tasks := by
  rw [Group.onDone]
  split
  · exact List.mem_erase_of_ne hj
  · exact Iff.rfl

theorem mem_onDone_self (hnodup : s.tasks.Nodup) :
    c ∈ s.onDone c k ↔ c ∈ s.tasks ∧ k.future ≠ some (.finished none) := by
  rw [Group.onDone]
  split
  · rename_i hfuture
    exact ⟨fun h => absurd h (List.Nodup.not_mem_erase hnodup), fun h => absurd hfuture h.2⟩
  · rename_i hfuture
    exact ⟨fun h => ⟨h, hfuture⟩, fun h => h.1⟩

/-- What other calls have registered stays as it is. -/
theorem mem_tasks (h : Changes s c k a k' tasks) {j : Nat} (hj : j ≠ c) :
    j ∈ tasks ↔ j ∈ s.tasks := by
  cases h with
  | appends hphase =>
    rw [List.mem_append, List.mem_singleton]
    exact ⟨fun h => h.resolve_right hj, .inl⟩
  | notifies hphase => exact mem_onDone hj
  | calls_back hdone => exact mem_onDone hj
  | _ => exact Iff.rfl

/-- A call is registered once, behind its submission. -/
theorem nodup (h : Changes s c k a k' tasks) (hs : s.Sound) (hk : s.calls[c]? = some k) :
    tasks.Nodup := by
  have honDone : (s.onDone c k).Nodup := by
    rw [Group.onDone]
    split
    · exact hs.nodup.erase c
    · exact hs.nodup
  cases h with
  | appends hphase =>
    refine List.nodup_append.2 ⟨hs.nodup, List.pairwise_singleton _ c, ?_⟩
    intro i hi j hj
    rw [List.mem_singleton.1 hj]
    rintro rfl
    obtain ⟨k₁, hk₁, hregistered⟩ := hs.tasks i hi
    cases hk.symm.trans hk₁
    rw [hphase] at hregistered
    cases hregistered
  | notifies hphase => exact honDone
  | calls_back hdone => exact honDone
  | _ => exact hs.nodup

/-- A task that runs goes on, unless it ends; then no call of it is in progress. -/
theorem running (h : Changes s c k a k' tasks) (hfits : s.Fits c k) (hk : k.task = some .running) :
    k'.task = some .running ∨ s.calling (.member c) = false := by
  obtain ⟨hraised, hfuture⟩ := Call.task_eq_some_iff.1 hk
  -- it runs, so it has been submitted
  have hnew : k.phase.unsubmitted ≠ true := by
    intro hphase
    rw [hfits.unsubmitted hphase] at hfuture
    cases hfuture
  have hsame : ∀ phase, phase ≠ .raised → ∀ hooked,
      (⟨k.caller, phase, k.future, hooked⟩ : Call).task = some .running :=
    fun phase hphase hooked => Call.task_eq_some_iff.2 ⟨hphase, hfuture⟩
  cases h with
  -- the steps before the submission
  | passes hphase hclosed => exact absurd (by rw [hphase]; rfl) hnew
  | refuses hphase =>
    exact absurd (by rcases hphase with hphase | hphase <;> rw [hphase] <;> rfl) hnew
  | accepts hphase => exact absurd (by rw [hphase]; rfl) hnew
  | queues hphase => exact absurd (by rw [hphase]; rfl) hnew
  -- the steps between the submission and the end of the call
  | appends hphase => exact .inl (hsame _ (by decide) _)
  | finds hphase hdone => exact .inl (hsame _ (by decide) _)
  | hooks hphase => exact .inl (hsame _ (by decide) _)
  | notifies hphase => exact .inl (hsame _ (by decide) _)
  | begins hpending =>
    rw [hpending] at hfuture
    cases hfuture
  | skips hcancelled =>
    rw [hcancelled] at hfuture
    cases hfuture
  -- the task can finish only with no call of its own in progress
  | finishes hrunning hcalling => exact .inr hcalling
  | cancels hsome =>
    cases hsome.symm.trans hfuture
    exact .inl (Call.task_eq_some_iff.2 ⟨hraised, rfl⟩)
  | calls_back hdone => exact .inl (hsame _ hraised _)

/-- The changed call has a future from its submission on. -/
theorem submission (h : Changes s c k a k' tasks) (hfits : s.Fits c k) :
    (k'.phase.unsubmitted = true → k'.future = none) ∧
    (k'.phase.submitted = true → k'.future ≠ none) := by
  have hlater : ∀ f, k.future = some f → k.phase.unsubmitted ≠ true := by
    intro f hf hphase
    rw [hfits.unsubmitted hphase] at hf
    cases hf
  have hsubmitted : k.phase.submitted = true → k.future ≠ none := hfits.submitted
  cases h with
  | passes hphase hclosed =>
    exact ⟨fun _ => hfits.unsubmitted (by rw [hphase]; rfl), fun h => (by cases h)⟩
  | refuses hphase => exact ⟨fun h => (by cases h), fun h => (by cases h)⟩
  | accepts hphase => exact ⟨fun h => (by cases h), fun _ h => (by cases h)⟩
  | queues hphase => exact ⟨fun h => (by cases h), fun h => (by cases h)⟩
  | appends hphase => exact ⟨fun h => (by cases h), fun _ => hsubmitted (by rw [hphase]; rfl)⟩
  | finds hphase hdone => exact ⟨fun h => (by cases h), fun _ => hsubmitted (by rw [hphase]; rfl)⟩
  | hooks hphase => exact ⟨fun h => (by cases h), fun _ => hsubmitted (by rw [hphase]; rfl)⟩
  | notifies hphase => exact ⟨fun h => (by cases h), fun _ => hsubmitted (by rw [hphase]; rfl)⟩
  | begins hfuture => exact ⟨fun h => absurd h (hlater _ hfuture), fun _ h => (by cases h)⟩
  | skips hfuture => exact ⟨fun h => absurd h (hlater _ hfuture), fun _ h => (by cases h)⟩
  | finishes hfuture hcalling =>
    exact ⟨fun h => absurd h (hlater _ hfuture), fun _ h => (by cases h)⟩
  | cancels hfuture => exact ⟨fun h => absurd h (hlater _ hfuture), fun _ h => (by cases h)⟩
  | calls_back hdone => exact ⟨hfits.unsubmitted, hfits.submitted⟩

/-- The changed call is in `_tasks` from its append to the end of its task without an exception. -/
theorem kept (h : Changes s c k a k' tasks) (hs : s.Sound) (hfits : s.Fits c k)
    (hk' : k'.phase.registered = true) : c ∈ tasks ∨ k'.future = some (.finished none) := by
  have hdoneKept : k.phase.registered = true → c ∈ s.onDone c k ∨
      k.future = some (.finished none) := by
    intro hregistered
    rw [mem_onDone_self hs.nodup]
    by_cases hfuture : k.future = some (.finished none)
    · exact .inr hfuture
    · exact .inl ⟨(hfits.kept hregistered).resolve_right hfuture, hfuture⟩
  -- a future that is not at its end is in `_tasks`
  have hstays : ∀ f, k.future = some f → f ≠ .finished none →
      k.phase.registered = true → c ∈ s.tasks := by
    intro f hf hne hregistered
    refine (hfits.kept hregistered).resolve_right fun hfuture => ?_
    cases hf.symm.trans hfuture
    exact hne rfl
  cases h with
  | passes hphase hclosed => cases hk'
  | refuses hphase => cases hk'
  | accepts hphase => cases hk'
  | queues hphase => cases hk'
  | appends hphase => exact .inl (List.mem_append_right _ List.mem_cons_self)
  | finds hphase hdone => exact hfits.kept (by rw [hphase]; rfl)
  | hooks hphase => exact hfits.kept (by rw [hphase]; rfl)
  | notifies hphase => exact hdoneKept (by rw [hphase]; rfl)
  | begins hfuture => exact .inl (hstays _ hfuture (by decide) hk')
  | skips hfuture => exact .inl (hstays _ hfuture (by decide) hk')
  | finishes hfuture hcalling => exact .inl (hstays _ hfuture (by decide) hk')
  | @cancels f hfuture =>
    rcases hfits.kept hk' with hmem | hfinished
    · exact .inl hmem
    · cases hfuture.symm.trans hfinished
      exact .inr rfl
  | calls_back hdone => exact hdoneKept hk'

/-- What is in `_tasks` is registered. -/
theorem registered (h : Changes s c k a k' tasks) (hs : s.Sound) (hk : s.calls[c]? = some k)
    (hmem : c ∈ tasks) : k'.phase.registered = true := by
  -- a listed call is registered, so it is not at one of the first steps
  have hregistered : c ∈ s.tasks → k.phase.registered = true := by
    intro hmem
    obtain ⟨k₁, hk₁, hregistered⟩ := hs.tasks c hmem
    cases hk.symm.trans hk₁
    exact hregistered
  -- the callback takes the call itself off the list only when it is registered
  have honDone : c ∈ s.onDone c k → k.phase.registered = true :=
    fun hmem => hregistered ((mem_onDone_self hs.nodup).1 hmem).1
  cases h with
  | passes hphase hclosed =>
    have hfalse := hregistered hmem
    rw [hphase] at hfalse
    cases hfalse
  | refuses hphase =>
    have hfalse := hregistered hmem
    rcases hphase with hphase | hphase <;> rw [hphase] at hfalse <;> cases hfalse
  | accepts hphase =>
    have hfalse := hregistered hmem
    rw [hphase] at hfalse
    cases hfalse
  | queues hphase =>
    have hfalse := hregistered hmem
    rw [hphase] at hfalse
    cases hfalse
  | appends hphase => rfl
  | finds hphase hdone => rfl
  | hooks hphase => rfl
  | notifies hphase => rfl
  | begins hfuture => exact hregistered hmem
  | skips hfuture => exact hregistered hmem
  | finishes hfuture hcalling => exact hregistered hmem
  | cancels hfuture => exact hregistered hmem
  | calls_back hdone => exact honDone hmem

end Changes

namespace Group

variable {s t : Group}

/-- A caller whose call is in progress is calling. -/
theorem calling_of {c : Nat} {k : Call} (hk : s.calls[c]? = some k)
    (hprogress : k.phase.inProgress = true) : s.calling k.caller = true := by
  refine List.any_eq_true.2 ⟨k, List.mem_of_getElem? hk, ?_⟩
  rw [decide_eq_true rfl, hprogress]
  rfl

/-- A change of a call keeps the group sound. -/
theorem Sound.changes {a : Act} {c : Nat} {k k' : Call} {tasks : List Nat} (hs : s.Sound)
    (hk : s.calls[c]? = some k) (h : Changes s c k a k' tasks) :
    ({ s with calls := s.calls.set c k', tasks := tasks } : Group).Sound := by
  have hfits := hs.fits c k hk
  constructor
  -- the call that moves, and the others, which see it through the list and as their caller
  · intro j kj hj
    rw [getElem?_set_iff hk] at hj
    split at hj
    · rename_i heq
      subst heq
      subst hj
      obtain ⟨hunsubmitted, hsubmitted⟩ := h.submission hfits
      refine ⟨hunsubmitted, hsubmitted, h.kept hs hfits,
        fun hcaller hprogress => ?_, fun i hcaller => ?_⟩
      · exact hfits.body (h.caller ▸ hcaller) (h.inProgress hprogress)
      · obtain ⟨hlt, hmember⟩ := hfits.member i (h.caller ▸ hcaller)
        refine ⟨hlt, fun hprogress => ?_⟩
        obtain ⟨m, hm, hrunning⟩ := hmember (h.inProgress hprogress)
        refine ⟨m, (getElem?_set_iff hk).2 ?_, hrunning⟩
        rw [if_neg (Nat.ne_of_gt hlt)]
        exact hm
    · rename_i hne
      obtain ⟨hunsubmitted, hsubmitted, hkept, hbody, hmember⟩ := hs.fits j kj hj
      refine ⟨hunsubmitted, hsubmitted, fun hregistered => ?_, hbody, fun i hcaller => ?_⟩
      · exact (hkept hregistered).imp_left (h.mem_tasks (Ne.symm hne)).2
      · refine ⟨(hmember i hcaller).1, fun hprogress => ?_⟩
        obtain ⟨m, hm, hrunning⟩ := (hmember i hcaller).2 hprogress
        -- the caller of the other call is the one that moves: it goes on running
        by_cases heq : c = i
        · subst heq
          cases hk.symm.trans hm
          refine ⟨k', (getElem?_set_iff hk).2 (by rw [if_pos rfl]), ?_⟩
          refine (h.running hfits hrunning).resolve_right fun hcalling => ?_
          rw [← hcaller, calling_of hj hprogress] at hcalling
          cases hcalling
        · exact ⟨m, (getElem?_set_iff hk).2 (by rw [if_neg heq]; exact hm), hrunning⟩
  -- what is listed is registered
  · intro j hj
    by_cases heq : c = j
    · subst heq
      exact ⟨k', (getElem?_set_iff hk).2 (by rw [if_pos rfl]), h.registered hs hk hj⟩
    · obtain ⟨kj, hkj, hregistered⟩ := hs.tasks j ((h.mem_tasks (Ne.symm heq)).1 hj)
      exact ⟨kj, (getElem?_set_iff hk).2 (by rw [if_neg heq]; exact hkj), hregistered⟩
  · exact h.nodup hs hk

/-- A new call keeps the group sound. -/
theorem Sound.called {caller : Caller} (hs : s.Sound) (hmay : s.mayCall caller = true) :
    ({ s with calls := s.calls ++ [⟨caller, .checking, none, false⟩] } : Group).Sound := by
  have hold : ∀ {j : Nat} {kj : Call}, s.calls[j]? = some kj →
      (s.calls ++ [⟨caller, .checking, none, false⟩])[j]? = some kj :=
    fun hj => getElem?_concat_iff.2 (.inl hj)
  constructor
  · intro j kj hj
    rcases getElem?_concat_iff.1 hj with hj | ⟨rfl, rfl⟩
    · obtain ⟨hunsubmitted, hsubmitted, hkept, hbody, hmember⟩ := hs.fits j kj hj
      refine ⟨hunsubmitted, hsubmitted, hkept, hbody, fun i hcaller => ⟨(hmember i hcaller).1, ?_⟩⟩
      intro hprogress
      obtain ⟨m, hm, hrunning⟩ := (hmember i hcaller).2 hprogress
      exact ⟨m, hold hm, hrunning⟩
    · refine ⟨fun _ => rfl, fun h => (by cases h), fun h => (by cases h), ?_, ?_⟩
      · rintro rfl -
        exact of_decide_eq_true hmay
      · rintro i rfl
        obtain ⟨m, hm, hrunning⟩ := Option.bind_eq_some_iff.1 (of_decide_eq_true hmay)
        exact ⟨(List.getElem?_eq_some_iff.1 hm).1, fun _ => ⟨m, hold hm, hrunning⟩⟩
  · intro j hj
    obtain ⟨kj, hkj, hregistered⟩ := hs.tasks j hj
    exact ⟨kj, hold hkj, hregistered⟩
  · exact hs.nodup

/-- The steps of the block change no call. It leaves the body when no call of the body is in
progress. -/
theorem Sound.blocked (hs : s.Sound) {opened closed : Bool} {block : Block}
    (hblock : s.block = .body → s.calling .body = true → block = .body) :
    ({ s with opened := opened, closed := closed, block := block } : Group).Sound := by
  refine ⟨fun j kj hj => ?_, hs.tasks, hs.nodup⟩
  obtain ⟨hunsubmitted, hsubmitted, hkept, hbody, hmember⟩ := hs.fits j kj hj
  refine ⟨hunsubmitted, hsubmitted, hkept, fun hcaller hprogress => ?_, hmember⟩
  refine hblock (hbody hcaller hprogress) ?_
  rw [← hcaller]
  exact calling_of hj hprogress

/-- Every move keeps the group sound. -/
theorem Sound.moves {a : Act} (hs : s.Sound) (h : Moves s a t) : t.Sound := by
  cases h with
  | stays => exact hs
  | enters hblock => exact hs.blocked fun _ _ => rfl
  | calls hmay => exact hs.called hmay
  | changes hk hchanges => exact hs.changes hk hchanges
  | exits hblock hcalling => exact hs.blocked fun _ h => by rw [hcalling] at h; cases h
  | drained hblock hpending => exact hs.blocked fun h => by rw [hblock] at h; cases h
  | waits hblock => exact hs.blocked fun h => by rw [hblock] at h; cases h
  | wakes hblock => exact hs.blocked fun h => by rw [hblock] at h; cases h
  | closes hblock => exact hs.blocked fun h => by rw [hblock] at h; cases h
  | skips hblock hfuture hcancelled => exact hs.blocked fun h => by rw [hblock] at h; cases h
  | asks hblock hfuture hcancelled => exact hs.blocked fun h => by rw [hblock] at h; cases h
  | interrupts hblock hfuture hcancelled => exact hs.blocked fun h => by rw [hblock] at h; cases h
  | collects hblock hfuture hdone => exact hs.blocked fun h => by rw [hblock] at h; cases h
  | concludes hblock => exact hs.blocked fun h => by rw [hblock] at h; cases h

end Group

end LocalPost.Threadtools.TaskGroup
