import LocalPost.Threadtools.TaskGroup.Invariant

/-!
# What a group raises

When only the body and the tasks call `create_task`, a look at `_tasks` that finds nothing pending
comes after the last task: an unfinished one that is not in `_tasks` yet would have a caller that
has not finished either, and so on up to the body. From then on nothing begins, and what `__exit__`
reads are the failures of all tasks.
-/

set_option autoImplicit false

namespace LocalPost.Threadtools.TaskGroup

open LocalPost.Core

/-- No step is a call from a thread that is neither the body nor a task. -/
def Structured (as : List Act) : Prop := ∀ a ∈ as, a ≠ .call .foreign

instance (as : List Act) : Decidable (Structured as) := inferInstanceAs (Decidable (∀ a ∈ as, _))

/-- What a step makes of the task of its call: a new one behind `submit`, else the old one, which
stays done. -/
theorem Changes.task {s : Group} {c : Nat} {k k' : Call} {a : Act} {tasks : List Nat}
    (h : Changes s c k a k' tasks) (hfits : s.Fits c k) {f' : Future} (hf' : k'.task = some f') :
    k.phase = .submitting ∨ ∃ f, k.task = some f ∧
      (f.done = true → f'.done = true ∧ f'.exception = f.exception ∧
        f'.isCancelled = f.isCancelled) := by
  obtain ⟨hraised, hfuture'⟩ := Call.task_eq_some_iff.1 hf'
  -- most steps leave the future alone
  have hsame : k.phase ≠ .raised → k.future = some f' →
      ∃ f, k.task = some f ∧
        (f.done = true → f'.done = true ∧ f'.exception = f.exception ∧
          f'.isCancelled = f.isCancelled) :=
    fun hphase hfuture =>
      ⟨f', Call.task_eq_some_iff.2 ⟨hphase, hfuture⟩, fun hdone => ⟨hdone, rfl, rfl⟩⟩
  cases h with
  -- before the submission there is no future
  | passes hphase hclosed =>
    rw [show k.future = none from hfits.unsubmitted (by rw [hphase]; rfl)] at hfuture'
    cases hfuture'
  | refuses hphase => exact absurd rfl hraised
  | accepts hphase => exact .inl hphase
  | queues hphase => exact .inl hphase
  | appends hphase => exact .inr (hsame (by rw [hphase]; decide) hfuture')
  | finds hphase hdone => exact .inr (hsame (by rw [hphase]; decide) hfuture')
  | hooks hphase => exact .inr (hsame (by rw [hphase]; decide) hfuture')
  | notifies hphase => exact .inr (hsame (by rw [hphase]; decide) hfuture')
  -- the future was not done yet, so nothing is to keep
  | begins hfuture =>
    exact .inr ⟨_, Call.task_eq_some_iff.2 ⟨hraised, hfuture⟩, fun hdone => by cases hdone⟩
  | skips hfuture =>
    cases hfuture'
    exact .inr ⟨_, Call.task_eq_some_iff.2 ⟨hraised, hfuture⟩, fun _ => ⟨rfl, rfl, rfl⟩⟩
  | finishes hfuture hcalling =>
    exact .inr ⟨_, Call.task_eq_some_iff.2 ⟨hraised, hfuture⟩, fun hdone => by cases hdone⟩
  -- a cancel changes a pending future only
  | @cancels f hfuture =>
    cases hfuture'
    refine .inr ⟨f, Call.task_eq_some_iff.2 ⟨hraised, hfuture⟩, fun hdone => ?_⟩
    cases f with
    | pending => cases hdone
    | _ => exact ⟨hdone, rfl, rfl⟩
  | calls_back hdone => exact .inr (hsame hraised hfuture')

/-- A task is not taken back by a step of its call, once it is there. -/
theorem Changes.keeps {s : Group} {c : Nat} {k k' : Call} {a : Act} {tasks : List Nat}
    (h : Changes s c k a k' tasks) (hfits : s.Fits c k) (hk : k.task ≠ none) : k'.task ≠ none := by
  obtain ⟨f, hf⟩ := Option.ne_none_iff_exists'.1 hk
  obtain ⟨hraised, hfuture⟩ := Call.task_eq_some_iff.1 hf
  -- a call with a future has passed its submission
  have hnew : k.phase.unsubmitted ≠ true := by
    intro hphase
    rw [hfits.unsubmitted hphase] at hfuture
    cases hfuture
  -- it is enough that the new call has a future and has not raised
  have hsome : ∀ k'' : Call, k''.phase ≠ .raised → k''.future ≠ none → k''.task ≠ none := by
    intro k'' hphase hne hnone
    rw [Call.task, if_neg hphase] at hnone
    exact hne hnone
  have hne : k.future ≠ none := by rw [hfuture]; exact Option.some_ne_none f
  cases h with
  | passes hphase hclosed => exact absurd (by rw [hphase]; rfl) hnew
  | refuses hphase =>
    exact absurd (by rcases hphase with hphase | hphase <;> rw [hphase] <;> rfl) hnew
  | accepts hphase => exact absurd (by rw [hphase]; rfl) hnew
  | queues hphase => exact absurd (by rw [hphase]; rfl) hnew
  -- behind the submission a step keeps the future or sets one
  | appends hphase => exact hsome _ (fun h => (by cases h)) hne
  | finds hphase hdone => exact hsome _ (fun h => (by cases h)) hne
  | hooks hphase => exact hsome _ (fun h => (by cases h)) hne
  | notifies hphase => exact hsome _ (fun h => (by cases h)) hne
  | begins hpending => exact hsome _ hraised (Option.some_ne_none _)
  | skips hcancelled => exact hsome _ hraised (Option.some_ne_none _)
  | finishes hrunning hcalling => exact hsome _ hraised (Option.some_ne_none _)
  | cancels hcancels => exact hsome _ hraised (Option.some_ne_none _)
  | calls_back hdone => exact hsome _ hraised hne

/-- A call that has ended stays at its end. -/
theorem Changes.phase_of_idle {s : Group} {c : Nat} {k k' : Call} {a : Act} {tasks : List Nat}
    (h : Changes s c k a k' tasks) (hidle : k.phase.inProgress = false) : k'.phase = k.phase := by
  cases h with
  | refuses hphase => rcases hphase with hphase | hphase <;> rw [hphase] at hidle <;> cases hidle
  | begins hfuture => rfl
  | skips hfuture => rfl
  | finishes hfuture hcalling => rfl
  | cancels hfuture => rfl
  | calls_back hdone => rfl
  | passes hphase hclosed => rw [hphase] at hidle; cases hidle
  | accepts hphase => rw [hphase] at hidle; cases hidle
  | queues hphase => rw [hphase] at hidle; cases hidle
  | appends hphase => rw [hphase] at hidle; cases hidle
  | finds hphase hdone => rw [hphase] at hidle; cases hidle
  | hooks hphase => rw [hphase] at hidle; cases hidle
  | notifies hphase => rw [hphase] at hidle; cases hidle

namespace Group

variable {s t : Group}

/-- The exception of the task of call `c`. -/
def failureAt (s : Group) (c : Nat) : Option Exc := (s.calls[c]?).bind Call.failure

/-- The exceptions of the tasks that have failed, each as often as tasks hold it. -/
def failures (s : Group) : List Exc := s.calls.filterMap Call.failure

theorem failures_eq (s : Group) : s.failures = (List.range s.calls.length).filterMap s.failureAt :=
  filterMap_eq_range s.calls Call.failure

/-- All calls have ended, and all tasks. -/
structure Drained (s : Group) : Prop where
  idle : ∀ (c : Nat) (k : Call), s.calls[c]? = some k → k.phase.inProgress = false
  done : ∀ (c : Nat) (k : Call) (f : Future), s.calls[c]? = some k → k.task = some f → f.done = true

/-- Nobody is left to call `create_task`. -/
theorem Drained.not_mayCall (h : s.Drained) (hbody : s.block ≠ .body) {caller : Caller}
    (hcaller : caller ≠ .foreign) : s.mayCall caller ≠ true := by
  intro hmay
  cases caller with
  | body => exact hbody (of_decide_eq_true hmay)
  | member i =>
    obtain ⟨m, hm, hrunning⟩ := Option.bind_eq_some_iff.1 (of_decide_eq_true hmay)
    have hdone := h.done i m .running hm hrunning
    cases hdone
  | foreign => exact hcaller rfl

/-- A step of a call or a future after the end changes nothing that `__exit__` reads. -/
theorem Drained.changes (hs : s.Sound) (h : s.Drained) {a : Act} {c : Nat} {k k' : Call}
    {tasks : List Nat} (hk : s.calls[c]? = some k) (hchanges : Changes s c k a k' tasks) :
    ({ s with calls := s.calls.set c k', tasks := tasks } : Group).Drained ∧ k'.failure =
    k.failure ∧
      ∀ f', k'.task = some f' → ∃ f, k.task = some f ∧ f'.isCancelled = f.isCancelled := by
  have hfits := hs.fits c k hk
  have hidle := h.idle c k hk
  -- every call is past its submission, so what the future says stays
  have hold : ∀ f', k'.task = some f' → ∃ f, k.task = some f ∧ f'.done = true ∧ f'.exception =
    f.exception ∧
      f'.isCancelled = f.isCancelled := by
    intro f' hf'
    rcases hchanges.task hfits hf' with hphase | ⟨f, hf, hdone⟩
    · rw [hphase] at hidle
      cases hidle
    · exact ⟨f, hf, hdone (h.done c k f hk hf)⟩
  have htask : ∀ f', k'.task = some f' → f'.done = true ∧ k.failure = f'.exception := by
    intro f' hf'
    obtain ⟨f, hf, hdone, hexception, -⟩ := hold f' hf'
    refine ⟨hdone, ?_⟩
    rw [Call.failure, hf, hexception]
    rfl
  refine ⟨?_, ?_, fun f' hf' => (hold f' hf').imp fun f =>
    fun ⟨hf, _, _, hcancelled⟩ => ⟨hf, hcancelled⟩⟩
  · constructor
    · intro j kj hj
      rw [getElem?_set_iff hk] at hj
      split at hj
      · subst hj
        exact Bool.eq_false_iff.2 fun hprogress =>
          Bool.eq_false_iff.1 hidle (hchanges.inProgress hprogress)
      · exact h.idle j kj hj
    · intro j kj f hj hf
      rw [getElem?_set_iff hk] at hj
      split at hj
      · subst hj
        exact (htask f hf).1
      · exact h.done j kj f hj hf
  -- the failure is the exception of the future, and there is none without one
  · cases htask' : k'.task with
    | some f' =>
      rw [(htask f' htask').2, Call.failure, htask']
      rfl
    | none =>
      have hnone : k.task = none := by
        by_contra hne
        exact hchanges.keeps hfits hne htask'
      rw [Call.failure, Call.failure, htask', hnone]

/-! ## The last look at `_tasks` -/

/-- Without foreign calls every task is done when no registered one is pending and the body has
ended. The induction is on the number of the call: the caller of a call that has not registered its
task is a call before it. -/
theorem Sound.done_of_no_pending (hs : s.Sound) (hcallers : ∀ k ∈ s.calls, k.caller ≠ .foreign)
    (hbody : s.block ≠ .body) (hpending : s.tasks.filter s.undone = []) {c : Nat} {k : Call}
    {f : Future} (hk : s.calls[c]? = some k) (hf : k.task = some f) : f.done = true := by
  induction c using Nat.strongRecOn generalizing k f with
  | ind c ih =>
    obtain ⟨hraised, hfuture⟩ := Call.task_eq_some_iff.1 hf
    obtain ⟨hunsubmitted, -, hkept, hbodyCall, hmember⟩ := hs.fits c k hk
    by_cases hregistered : k.phase.registered = true
    · rcases hkept hregistered with hmem | hfinished
      · have hnot := List.filter_eq_nil_iff.1 hpending c hmem
        rw [undone, futureAt, hk, Option.bind_some, hfuture] at hnot
        cases hdone : f.done with
        | true => rfl
        | false => simp [hdone] at hnot
      · cases hfuture.symm.trans hfinished
        rfl
    -- its future is registered: it is pending, or it had finished before
    · -- the call is still at its append
      have hprogress : k.phase.inProgress = true := by
        cases hphase : k.phase <;> simp_all [Phase.registered, Phase.inProgress]
      cases hcaller : k.caller with
      | body => exact absurd (hbodyCall hcaller hprogress) hbody
      | foreign => exact absurd hcaller (hcallers k (List.mem_of_getElem? hk))
      | member i =>
        obtain ⟨hlt, hrunning⟩ := hmember i hcaller
        obtain ⟨m, hm, hmtask⟩ := hrunning hprogress
        have hdone := ih i hlt hm hmtask
        cases hdone

/-- When nothing is pending and no foreign call can come, the group is drained. -/
theorem Sound.drained (hs : s.Sound) (hcallers : ∀ k ∈ s.calls, k.caller ≠ .foreign)
    (hbody : s.block ≠ .body) (hpending : s.tasks.filter s.undone = []) : s.Drained := by
  have hdone : ∀ (c : Nat) (k : Call) (f : Future), s.calls[c]? = some k →
    k.task = some f → f.done = true :=
    fun c k f hk hf => hs.done_of_no_pending hcallers hbody hpending hk hf
  refine ⟨fun c k hk => Bool.eq_false_iff.2 fun hprogress => ?_, hdone⟩
  obtain ⟨-, -, -, hbodyCall, hmember⟩ := hs.fits c k hk
  cases hcaller : k.caller with
  | body => exact hbody (hbodyCall hcaller hprogress)
  | foreign => exact hcallers k (List.mem_of_getElem? hk) hcaller
  | member i =>
    obtain ⟨m, hm, hrunning⟩ := (hmember i hcaller).2 hprogress
    have hfalse := hdone i m .running hm hrunning
    cases hfalse

/-! ## The accounts of `__exit__` -/

/-- `__exit__` has read `read` and goes on with `failed`, and every failure is in one of them. -/
def Reading (s : Group) (failed : List Nat) (allErrors : List Exc) : Prop :=
  s.Drained ∧ ∃ read, (read ++ failed).Nodup ∧
    (∀ c, (s.failureAt c).isSome = true → c ∈ read ++ failed) ∧
    (∀ c ∈ read ++ failed, ∃ k, s.calls[c]? = some k ∧ k.phase ≠ .raised) ∧
    allErrors = read.filterMap s.failureAt

/-- Where `__exit__` stands with the failures: it has found nothing pending; it reads them, and no
future is cancelled under its `exception()`; it has put the group together. -/
structure Accounted (s : Group) : Prop where
  closing : ∀ exc, s.block = .closing exc → s.Drained
  collecting : ∀ exc failed allErrors, s.block = .collecting exc failed allErrors →
    s.Reading failed allErrors
  asking : ∀ exc c failed allErrors, s.block = .asking exc c failed allErrors →
    s.Reading (c :: failed) allErrors ∧ ∀ f, s.futureAt c = some f → f.isCancelled = false
  left : ∀ exc group, s.block = .left exc group → s.Drained ∧
    ∃ errors, errors.Perm s.failures ∧ group = if merged exc errors = [] then
      none else some (merged exc errors)
  interrupted : ∀ exc, s.block ≠ .interrupted exc

/-- A change of one call that keeps its failure keeps all failures. -/
theorem failureAt_set {c : Nat} {k k' : Call} {tasks : List Nat} (hk : s.calls[c]? = some k)
    (hfailure : k'.failure = k.failure) (j : Nat) :
    ({ s with calls := s.calls.set c k', tasks := tasks } : Group).failureAt j = s.failureAt j := by
  rw [failureAt, failureAt, List.getElem?_set]
  split
  · rename_i heq
    subst heq
    rw [if_pos (List.getElem?_eq_some_iff.1 hk).1, hk]
    exact hfailure
  · rfl

/-- A change of a call keeps what has been read of the futures. -/
theorem Reading.changes (hs : s.Sound) {failed : List Nat} {allErrors : List Exc}
    (h : s.Reading failed allErrors)
    {a : Act} {c : Nat} {k k' : Call} {tasks : List Nat} (hk : s.calls[c]? = some k)
    (hchanges : Changes s c k a k' tasks) :
    ({ s with calls := s.calls.set c k', tasks := tasks } : Group).Reading failed allErrors := by
  obtain ⟨hdrained, read, hnodup, hfailures, hphases, hread⟩ := h
  obtain ⟨hdrained', hfailure, -⟩ := hdrained.changes hs hk hchanges
  refine ⟨hdrained', read, hnodup, fun j hj => ?_, fun j hj => ?_, ?_⟩
  · rw [failureAt_set hk hfailure] at hj
    exact hfailures j hj
  · obtain ⟨kj, hkj, hphase⟩ := hphases j hj
    by_cases heq : c = j
    · subst heq
      cases hk.symm.trans hkj
      refine ⟨k', (getElem?_set_iff hk).2 (by rw [if_pos rfl]), ?_⟩
      rw [hchanges.phase_of_idle (hdrained.idle c k hk)]
      exact hphase
    · exact ⟨kj, (getElem?_set_iff hk).2 (by rw [if_neg heq]; exact hkj), hphase⟩
  · rw [hread]
    exact List.filterMap_congr fun j _ => (failureAt_set hk hfailure j).symm

/-- A change of a call keeps the errors accounted for. -/
theorem Accounted.changes (hs : s.Sound) (h : s.Accounted) {a : Act} {c : Nat} {k k' : Call}
    {tasks : List Nat}
    (hk : s.calls[c]? = some k) (hchanges : Changes s c k a k' tasks) :
    ({ s with calls := s.calls.set c k', tasks := tasks } : Group).Accounted := by
  refine ⟨?_, fun exc failed allErrors hblock => (h.collecting exc failed allErrors hblock).changes
    hs hk hchanges, ?_, ?_, h.interrupted⟩
  · intro exc hblock
    exact ((h.closing exc hblock).changes hs hk hchanges).1
  · intro exc j failed allErrors hblock
    obtain ⟨hreading, hcancelled⟩ := h.asking exc j failed allErrors hblock
    refine ⟨hreading.changes hs hk hchanges, fun f' hf' => ?_⟩
    obtain ⟨kj', hkj', hf'⟩ := Option.bind_eq_some_iff.1 hf'
    rw [getElem?_set_iff hk] at hkj'
    split at hkj'
    · rename_i heq
      subst heq
      subst hkj'
      -- the call is at its end, and its future with it
      obtain ⟨hdrained, read, -, -, hphases, -⟩ := hreading
      obtain ⟨kc, hkc, hphase⟩ := hphases c (List.mem_append_right _ List.mem_cons_self)
      cases hk.symm.trans hkc
      have hphase' : k'.phase ≠ .raised := by
        rw [hchanges.phase_of_idle (hdrained.idle c k hk)]
        exact hphase
      obtain ⟨f, hf, hsame⟩ :=
        (hdrained.changes hs hk hchanges).2.2 f' (Call.task_eq_some_iff.2 ⟨hphase', hf'⟩)
      rw [hsame]
      refine hcancelled f ?_
      rw [futureAt, hk]
      exact (Call.task_eq_some_iff.1 hf).2
    · refine hcancelled f' ?_
      rw [futureAt, hkj']
      exact hf'
  · intro exc group hblock
    obtain ⟨hdrained, errors, hperm, hgroup⟩ := h.left exc group hblock
    obtain ⟨hdrained', hfailure, -⟩ := hdrained.changes hs hk hchanges
    refine ⟨hdrained', errors, ?_, hgroup⟩
    rw [failures_eq] at hperm ⊢
    rw [List.length_set]
    refine hperm.trans (List.Perm.of_eq ?_)
    exact List.filterMap_congr fun j _ => (failureAt_set hk hfailure j).symm

/-- Another stage of the block with nothing to account for. -/
theorem accounted_of_open (h : ∀ exc, s.block ≠ .closing exc)
    (hcollecting : ∀ exc failed allErrors, s.block ≠ .collecting exc failed allErrors)
    (hasking : ∀ exc c failed allErrors, s.block ≠ .asking exc c failed allErrors)
    (hover : s.block.over = false) : s.Accounted where
  closing exc hblock := absurd hblock (h exc)
  collecting exc failed allErrors hblock := absurd hblock (hcollecting exc failed allErrors)
  asking exc c failed allErrors hblock := absurd hblock (hasking exc c failed allErrors)
  left exc group hblock := by rw [hblock] at hover; cases hover
  interrupted exc hblock := by rw [hblock] at hover; cases hover

/-- `__exit__` goes on reading. -/
theorem Reading.accounted {exc : Option Exc} {failed : List Nat} {allErrors : List Exc}
    (h : s.Reading failed allErrors) {closed : Bool} :
    ({ s with closed := closed, block := .collecting exc failed allErrors } : Group).Accounted where
  closing exc hblock := by cases hblock
  collecting exc failed allErrors hblock := by
    cases hblock
    exact ⟨⟨h.1.idle, h.1.done⟩, h.2⟩
  asking exc c failed allErrors hblock := by cases hblock
  left exc group hblock := by cases hblock
  interrupted exc hblock := by cases hblock

/-- The group is closed: what is to be read is `_tasks`, in which every failed task is. -/
theorem Accounted.closes (hs : s.Sound) (h : s.Accounted) {exc : Option Exc}
    (hblock : s.block = .closing exc) :
    ({ s with closed := true, block := .collecting exc s.tasks [] } : Group).Accounted := by
  have hdrained := h.closing exc hblock
  refine Reading.accounted ⟨hdrained, [], hs.nodup, fun c hc => ?_, fun c hc => ?_, rfl⟩
  · obtain ⟨e, he⟩ := Option.isSome_iff_exists.1 hc
    obtain ⟨k, hk, hfailure⟩ := Option.bind_eq_some_iff.1 he
    obtain ⟨f, hf, hexception⟩ := Option.bind_eq_some_iff.1 hfailure
    obtain ⟨hraised, hfuture⟩ := Call.task_eq_some_iff.1 hf
    have hfits := hs.fits c k hk
    have hregistered : k.phase.registered = true := by
      have hidle := hdrained.idle c k hk
      cases hphase : k.phase with
      | returned => rfl
      | raised => exact absurd hphase hraised
      | _ => rw [hphase] at hidle; cases hidle
    refine (hfits.kept hregistered).resolve_right fun hfinished => ?_
    cases hfuture.symm.trans hfinished
    cases hexception
  · obtain ⟨k, hk, hregistered⟩ := hs.tasks c hc
    refine ⟨k, hk, fun hraised => ?_⟩
    rw [hraised] at hregistered
    cases hregistered

/-- The future `c` is read, and `errors` are what it brings. -/
theorem Reading.reads {c : Nat} {failed : List Nat} {allErrors : List Exc} {f : Future}
    (h : s.Reading (c :: failed) allErrors) (hfuture : s.futureAt c = some f) :
    s.Reading failed (allErrors ++ f.exception.toList) := by
  obtain ⟨hdrained, read, hnodup, hfailures, hphases, rfl⟩ := h
  rw [List.append_cons] at hnodup hfailures hphases
  refine ⟨hdrained, read ++ [c], hnodup, hfailures, hphases, ?_⟩
  obtain ⟨k, hk, hphase⟩ :=
    hphases c (List.mem_append_left _ (List.mem_append_right _ List.mem_cons_self))
  rw [futureAt, hk] at hfuture
  have hfailure : s.failureAt c = f.exception := by
    rw [failureAt, hk, Option.bind_some, Call.failure, Call.task, if_neg hphase,
      show k.future = some f from hfuture]
    rfl
  rw [List.filterMap_append]
  congr 1
  rw [List.filterMap_cons, hfailure]
  cases f.exception <;> rfl

/-- A future that was cancelled brings nothing. -/
theorem Accounted.skips (h : s.Accounted) {exc : Option Exc} {c : Nat} {failed : List Nat}
    {allErrors : List Exc} {f : Future} (hblock : s.block = .collecting exc (c :: failed) allErrors)
    (hfuture : s.futureAt c = some f) (hcancelled : f.isCancelled = true) :
    ({ s with block := .collecting exc failed allErrors } : Group).Accounted := by
  have hreading := (h.collecting _ _ _ hblock).reads hfuture
  have hnone : f.exception = none := by
    cases f with
    | finished e => cases hcancelled
    | _ => rfl
  rw [hnone, Option.toList_none, List.append_nil] at hreading
  exact hreading.accounted

/-- Asking the next future keeps the errors accounted for. -/
theorem Accounted.asks (h : s.Accounted) {exc : Option Exc} {c : Nat} {failed : List Nat}
    {allErrors : List Exc} {f : Future} (hblock : s.block = .collecting exc (c :: failed) allErrors)
    (hfuture : s.futureAt c = some f) (hcancelled : f.isCancelled = false) :
    ({ s with block := .asking exc c failed allErrors } : Group).Accounted where
  closing exc hblock := by cases hblock
  collecting exc failed allErrors hblock := by cases hblock
  asking exc' c' failed' allErrors' hblock' := by
    cases hblock'
    obtain ⟨hdrained, hread⟩ := h.collecting _ _ _ hblock
    refine ⟨⟨⟨hdrained.idle, hdrained.done⟩, hread⟩, fun f' hf' => ?_⟩
    cases hfuture.symm.trans hf'
    exact hcancelled
  left exc group hblock := by cases hblock
  interrupted exc hblock := by cases hblock

/-- All that was to be read has been. -/
theorem Accounted.concludes (h : s.Accounted) {exc : Option Exc} {allErrors : List Exc}
    (hblock : s.block = .collecting exc [] allErrors) :
    ({ s with
        block :=
          .left exc (if merged exc allErrors = [] then none else some (merged exc allErrors)) } :
      Group).Accounted := by
  refine ⟨fun exc hblock => (by cases hblock), fun exc failed allErrors hblock => (by cases hblock),
    fun exc c failed allErrors hblock => (by cases hblock), fun exc group hblock' => ?_,
    fun exc hblock => (by cases hblock)⟩
  cases hblock'
  obtain ⟨hdrained, read, hnodup, hfailures, hphases, rfl⟩ := h.collecting _ _ _ hblock
  rw [List.append_nil] at hnodup hfailures hphases
  refine ⟨⟨hdrained.idle, hdrained.done⟩, _, ?_, rfl⟩
  rw [failures_eq]
  refine perm_filterMap_of_mem_iff hnodup List.nodup_range fun c hc => ?_
  rw [List.mem_range]
  refine ⟨fun hmem => ?_, fun _ => hfailures c hc⟩
  obtain ⟨k, hk, -⟩ := hphases c hmem
  exact (List.getElem?_eq_some_iff.1 hk).1

/-- The invariant of structured runs. -/
structure Kept (s : Group) : Prop where
  sound : s.Sound
  callers : ∀ k ∈ s.calls, k.caller ≠ .foreign
  accounted : s.Accounted

theorem kept_start : start.Kept :=
  ⟨sound_start,
    fun k hk => absurd hk List.not_mem_nil, accounted_of_open (fun exc h => (by cases h))
    (fun exc failed allErrors h => (by cases h)) (fun exc c failed allErrors h => (by cases h)) rfl⟩

/-- A move that no foreign caller makes keeps the invariant of structured runs. -/
theorem Kept.moves {a : Act} (hs : s.Kept) (ha : a ≠ .call .foreign)
    (h : Moves s a t) : t.Kept := by
  refine ⟨hs.sound.moves h, ?_, ?_⟩
  -- the callers stay as they were, but for a new call, which is not a foreign one
  · cases h with
    | @calls caller hmay =>
      intro k hk
      rcases List.mem_append.1 hk with hk | hk
      · exact hs.callers k hk
      · rw [List.mem_singleton.1 hk]
        rintro rfl
        exact ha rfl
    | changes hk hchanges =>
      intro kj hkj
      rcases List.mem_or_eq_of_mem_set hkj with hold | rfl
      · exact hs.callers kj hold
      · rw [hchanges.caller]
        exact hs.callers _ (List.mem_of_getElem? hk)
    | _ => exact hs.callers
  -- no step after the drain changes what is accounted for
  · cases h with
    | stays => exact hs.accounted
    | enters hblock =>
      exact accounted_of_open (fun exc h => (by cases h))
        (fun exc failed allErrors h => (by cases h))
        (fun exc c failed allErrors h => (by cases h)) rfl
    | @calls caller hmay =>
      have hcaller : caller ≠ .foreign := by
        rintro rfl
        exact ha rfl
      -- a group that drains its members is called by nobody, for all of them are done
      refine accounted_of_open (fun exc hblock => ?_) (fun exc failed allErrors hblock => ?_)
        (fun exc c failed allErrors hblock => ?_) ?_
      · exact (hs.accounted.closing exc hblock).not_mayCall
          (by rw [hblock]; exact nofun) hcaller hmay
      · exact (hs.accounted.collecting exc failed allErrors hblock).1.not_mayCall
          (by rw [hblock]; exact nofun) hcaller hmay
      · exact (hs.accounted.asking exc c failed allErrors hblock).1.1.not_mayCall
          (by rw [hblock]; exact nofun) hcaller hmay
      · cases hblock : s.block with
        | left exc group =>
          exact absurd hmay
            ((hs.accounted.left exc group hblock).1.not_mayCall (by rw [hblock]; exact nofun)
            hcaller)
        | interrupted exc => exact absurd hblock (hs.accounted.interrupted exc)
        | _ => rfl
    | changes hk hchanges => exact hs.accounted.changes hs.sound hk hchanges
    | exits hblock hcalling =>
      exact accounted_of_open (fun exc h => (by cases h))
        (fun exc failed allErrors h => (by cases h))
        (fun exc c failed allErrors h => (by cases h)) rfl
    | drained hblock hpending =>
      -- nothing is pending, so every call has returned and every future is done
      have hdrained := hs.sound.drained hs.callers (by rw [hblock]; exact nofun) hpending
      exact ⟨fun exc _ => ⟨hdrained.idle, hdrained.done⟩,
        fun exc failed allErrors h => (by cases h),
        fun exc c failed allErrors h => (by cases h), fun exc group h =>
          (by cases h), fun exc h => (by cases h)⟩
    | waits hblock =>
      exact accounted_of_open (fun exc h => (by cases h))
        (fun exc failed allErrors h => (by cases h))
        (fun exc c failed allErrors h => (by cases h)) rfl
    | wakes hblock =>
      exact accounted_of_open (fun exc h => (by cases h))
        (fun exc failed allErrors h => (by cases h))
        (fun exc c failed allErrors h => (by cases h)) rfl
    | closes hblock => exact hs.accounted.closes hs.sound hblock
    | skips hblock hfuture hcancelled => exact hs.accounted.skips hblock hfuture hcancelled
    | asks hblock hfuture hcancelled => exact hs.accounted.asks hblock hfuture hcancelled
    | interrupts hblock hfuture hcancelled =>
      -- a drained group has asked no cancelled future
      rw [(hs.accounted.asking _ _ _ _ hblock).2 _ hfuture] at hcancelled
      cases hcancelled
    | collects hblock hfuture hdone =>
      exact ((hs.accounted.asking _ _ _ _ hblock).1.reads hfuture).accounted
    | concludes hblock => exact hs.accounted.concludes hblock

/-- The exception of the body, from its end on. -/
def exc (s : Group) : Option (Option Exc) :=
  match s.block with
  | .outside => none
  | .body => none
  | .draining exc => some exc
  | .waiting exc _ => some exc
  | .closing exc => some exc
  | .collecting exc _ _ => some exc
  | .asking exc _ _ _ => some exc
  | .left exc _ => some exc
  | .interrupted exc => some exc

/-- The exception of the body comes with `__exit__` and stays. -/
theorem exc_of_moves {a : Act} (h : Moves s a t) : t.exc = s.exc ∨ ∃ exc, a = .exit exc ∧
    t.exc = some exc := by
  cases h with
  | enters hblock => exact .inl (by rw [exc, exc, hblock])
  | exits hblock hcalling => exact .inr ⟨_, rfl, rfl⟩
  | drained hblock hpending => exact .inl (by rw [exc, exc, hblock])
  | waits hblock => exact .inl (by rw [exc, exc, hblock])
  | wakes hblock => exact .inl (by rw [exc, exc, hblock])
  | closes hblock => exact .inl (by rw [exc, exc, hblock])
  | skips hblock hfuture hcancelled => exact .inl (by rw [exc, exc, hblock])
  | asks hblock hfuture hcancelled => exact .inl (by rw [exc, exc, hblock])
  | interrupts hblock hfuture hcancelled => exact .inl (by rw [exc, exc, hblock])
  | collects hblock hfuture hdone => exact .inl (by rw [exc, exc, hblock])
  | concludes hblock => exact .inl (by rw [exc, exc, hblock])
  | _ => exact .inl rfl

theorem merged_of_mem {e : Exc} {errors : List Exc} (h : e ∈ errors) :
    merged (some e) errors = errors := by
  refine if_neg fun hall => ?_
  have hne := of_decide_eq_true (List.all_eq_true.1 hall e h)
  exact hne rfl

theorem merged_of_not_mem {e : Exc} {errors : List Exc} (h : e ∉ errors) :
    merged (some e) errors = e :: errors := by
  refine if_pos (List.all_eq_true.2 fun e' he' => decide_eq_true ?_)
  rintro rfl
  exact h he'

/-- Nothing is raised exactly if the body and all tasks ended well. -/
theorem merged_eq_nil_iff {exc : Option Exc} {errors : List Exc} :
    merged exc errors = [] ↔ exc = none ∧ errors = [] := by
  cases exc with
  | none => exact ⟨fun h => ⟨rfl, h⟩, fun h => h.2⟩
  | some e =>
    by_cases hmem : e ∈ errors
    · rw [merged_of_mem hmem]
      exact ⟨fun h => absurd hmem (by rw [h]; exact List.not_mem_nil), fun h => (by cases h.1)⟩
    · rw [merged_of_not_mem hmem]
      exact ⟨fun h => (by cases h), fun h => (by cases h.1)⟩

end Group

/-- A structured run keeps its invariant. -/
theorem kept_of_exec {s t : Group} {as : List Act} (has : Structured as) (hs : s.Kept)
    (hrun : system.exec s as = some t) : t.Kept := by
  induction as generalizing s with
  | nil =>
    cases hrun
    exact hs
  | cons a as ih =>
    obtain ⟨u, hu, hrest⟩ := (Lts.exec_cons system).1 hrun
    obtain ⟨ha, has'⟩ := List.forall_mem_cons.1 has
    exact ih has' (hs.moves ha (Group.moves_of_step hu)) hrest

/-- The exception of the body was given to `__exit__`. -/
theorem exit_of_exec {s t : Group} {as : List Act} {exc : Option Exc} (hs : s.exc ≠ some exc)
    (hrun : system.exec s as = some t) (ht : t.exc = some exc) : .exit exc ∈ as := by
  induction as generalizing s with
  | nil =>
    cases hrun
    exact absurd ht hs
  | cons a as ih =>
    obtain ⟨u, hu, hrest⟩ := (Lts.exec_cons system).1 hrun
    by_cases hexc : u.exc = some exc
    · rcases Group.exc_of_moves (Group.moves_of_step hu) with hsame | ⟨exc', rfl, hexc'⟩
      · exact absurd (hsame.symm.trans hexc) hs
      · cases hexc.symm.trans hexc'
        exact List.mem_cons_self
    · exact List.mem_cons_of_mem _ (ih hexc hrest)

/-- In every run in which only the body and running tasks call `create_task`: `__exit__` is not
interrupted; when it is over, every task that was created is done; it has raised exactly if the body
or a task that was not cancelled did; and the group holds the exceptions of all failed tasks, with
the body's in front unless it is one of them. -/
theorem errors_accounted {as : List Act} (has : Structured as) {t : Group}
    (hrun : system.exec .start as = some t) :
    (∀ exc, t.block ≠ .interrupted exc) ∧
    ∀ (exc : Option Exc) (group : Option (List Exc)), t.block = .left exc group →
      .exit exc ∈ as ∧
      (∀ k ∈ t.calls, k.phase.inProgress = false ∧ ∀ f, k.task = some f → f.done = true) ∧
      (group ≠ none ↔ exc ≠ none ∨ ∃ k ∈ t.calls, k.failure ≠ none) ∧
      ∃ errors, errors.Perm t.failures ∧
        (exc = none → group.getD [] = errors) ∧
        ∀ e, exc = some e → (e ∈ errors → group = some errors) ∧
          (e ∉ errors → group = some (e :: errors)) := by
  have hkept := kept_of_exec has Group.kept_start hrun
  refine ⟨hkept.accounted.interrupted, fun exc group hleft => ?_⟩
  obtain ⟨hdrained, errors, hperm, hgroup⟩ := hkept.accounted.left exc group hleft
  -- The collected errors are those of the failed calls, in some order.
  have hnil : errors = [] ↔ ¬∃ k ∈ t.calls, k.failure ≠ none := by
    have hempty : errors = [] ↔ t.failures = [] :=
      ⟨fun h => List.nil_perm.1 (h ▸ hperm), fun h => List.perm_nil.1 (h ▸ hperm)⟩
    rw [hempty, Group.failures, List.filterMap_eq_nil_iff]
    push Not
    exact Iff.rfl
  refine ⟨?_, fun k hk => ?_, ?_, errors, hperm, ?_, ?_⟩
  · refine exit_of_exec (fun h => by cases h) hrun ?_
    rw [Group.exc, hleft]
  · obtain ⟨c, hc⟩ := List.mem_iff_getElem?.1 hk
    exact ⟨hdrained.idle c k hc, fun f hf => hdrained.done c k f hc hf⟩
  · have hraises : group ≠ none ↔ ¬Group.merged exc errors = [] := by
      rw [hgroup]
      split
      · rename_i hmerged
        exact ⟨fun h => absurd rfl h, fun h => absurd hmerged h⟩
      · rename_i hmerged
        exact ⟨fun _ => hmerged, fun _ => Option.some_ne_none _⟩
    rw [hraises, Group.merged_eq_nil_iff, hnil]
    by_cases hexc : exc = none
    · simp [hexc]
    · simp [hexc]
  · rintro rfl
    rw [hgroup, Group.merged]
    split
    · rename_i hempty
      exact hempty.symm
    · rfl
  · rintro e rfl
    have hne : Group.merged (some e) errors ≠ [] :=
      fun h => by cases (Group.merged_eq_nil_iff.1 h).1
    rw [hgroup, if_neg hne]
    exact ⟨fun hmem => by rw [Group.merged_of_mem
      hmem], fun hmem => by rw [Group.merged_of_not_mem hmem]⟩

/-- The body starts a task, the task starts another, the inner one raises 7, the outer one returns,
and its callback runs only behind the closing. -/
def nested : List Act :=
  [.enter, .call .body, .check 0, .submit 0 .accepted, .append 0, .begin 0, .call (.member 0),
    .check 1,
    .submit 1 .accepted, .begin 1, .hook 0, .exit (some 9), .drain, .append 1,
      .finish 1 (some 7), .hook 1,
    .notify 1, .finish 0 none, .wake, .drain, .close, .callback 0, .collect, .ask,
      .collect, .ask, .conclude]

theorem errors_accounted_nested :
    ∃ t, system.exec .start nested = some t ∧ t.block = .left (some 9) (some [9, 7]) ∧
      (∀ k ∈ t.calls, k.phase.inProgress = false ∧ ∀ f, k.task = some f → f.done = true) ∧
      ∃ errors, errors.Perm t.failures ∧ (9 ∉ errors → some [9, 7] = some (9 :: errors)) := by
  obtain ⟨t, hrun, hleft⟩ : ∃ t, system.exec .start nested = some t ∧
    t.block = .left (some 9) (some [9, 7]) :=
    ⟨_, rfl, rfl⟩
  obtain ⟨-, hdone, -, errors, hperm, -, hgroup⟩ := (errors_accounted (by decide) hrun).2 _ _ hleft
  exact ⟨t, hrun, hleft, hdone, errors, hperm, (hgroup 9 rfl).2⟩

end LocalPost.Threadtools.TaskGroup
