import LocalPost.Scheduler.Chain
import Mathlib.Algebra.BigOperators.Group.Finset.Piecewise
import Mathlib.Algebra.Order.BigOperators.Group.Finset
import Mathlib.Data.Fintype.BigOperators

/-!
# The end of a chain of schedules

When the triggers with events of their own have ended, a shutdown for one, the tasks that wait for
each other come to their end one after the other: every run takes a bounded number of steps for each
event, and when no step is possible any more, every schedule is done and has handled everything
(`chain_drains`). The exception is a schedule that began after its target had finished: it fails,
and what waits for its task waits for ever.
-/

set_option autoImplicit false

namespace LocalPost.Scheduler.Chained

open LocalPost.Core

/-- A trigger has an event of its own. -/
def Act.fires {V E ι : Type} : Act V E ι → Bool
  | .fire _ => true
  | _ => false

/-- A stage of a trigger leaves it. -/
def Act.leaves {V E ι : Type} : Act V E ι → Bool
  | .leave _ => true
  | _ => false

namespace Place

variable {V E : Type}

/-- Whether the schedule has come to its beginning, and to its end, as numbers. -/
def ends : Place V E → Nat
  | .waiting => 0
  | .completed => 2
  | _ => 1

theorem ends_le (p : Place V E) : p.ends ≤ 2 := by
  cases p <;> simp [ends]

end Place

section

variable {σ V E ι : Type} [DecidableEq ι] {M : MemoryStreams σ (Result V E)} {S : Schedules ι}
  {Unbounded : σ → Prop}

/-- How many steps a schedule has taken. -/
def spent (s : State σ V E ι) (j : ι) : Nat :=
  (s.run j).place.ends + (s.run j).got + (s.run j).events.length + (s.results j).length

/-- A step of the schedule `j` that leaves the results of all tasks as they are. -/
theorem spent_of_run {s t : State σ V E ι} {j : ι} {r : Run V E}
    (hrun : t.run = Function.update s.run j r) (hresults : t.results = s.results)
    (hr : r.place.ends + r.got + r.events.length =
      (s.run j).place.ends + (s.run j).got + (s.run j).events.length + 1) :
    ∃ j : ι, spent t j = spent s j + 1 ∧ ∀ k : ι, k ≠ j → spent t k = spent s k := by
  refine ⟨j, ?_, fun k hk => ?_⟩
  · rw [spent, spent, hrun, hresults, Function.update_self]
    omega
  · rw [spent, spent, hrun, hresults, Function.update_of_ne hk]

/-- A step to another place. -/
theorem spent_of_place {s t : State σ V E ι} {j : ι} {r : Run V E}
    (hrun : t.run = Function.update s.run j r) (hresults : t.results = s.results)
    (hgot : r.got = (s.run j).got) (hevents : r.events = (s.run j).events)
    (hends : r.place.ends = (s.run j).place.ends + 1) :
    ∃ j : ι, spent t j = spent s j + 1 ∧ ∀ k : ι, k ≠ j → spent t k = spent s k := by
  apply spent_of_run hrun hresults
  rw [hgot, hevents, hends]
  omega

/-- Each step is one that a single schedule has spent. -/
theorem spent_step (hM : M.Documented) {s t : State σ V E ι} (h : Inv M S Unbounded s)
    {a : Act V E ι} (hstep : s.step M S a = some t) :
    ∃ j : ι, spent t j = spent s j + 1 ∧ ∀ k : ι, k ≠ j → spent t k = spent s k := by
  -- Each step is one of run `j`, and counts one for it.
  cases a with
  | start j =>
    simp only [State.step] at hstep
    split at hstep
    · rename_i hplace
      cases hstep
      rw [State.begin]
      split
      · exact spent_of_place rfl rfl rfl rfl (by rw [hplace]; rfl)
      · split
        · exact spent_of_place rfl rfl rfl rfl (by rw [hplace]; rfl)
        · exact spent_of_place rfl rfl rfl rfl (by rw [hplace]; rfl)
    · cases hstep
  | fire j =>
    simp only [State.step] at hstep
    split at hstep
    · rename_i hplace ht
      cases hstep
      exact spent_of_run rfl rfl (by rw [hplace]; simp only [Place.ends]; omega)
    · cases hstep
  | exhausted j =>
    simp only [State.step] at hstep
    split at hstep
    · rename_i hplace ht
      cases hstep
      exact spent_of_place (finish_run _) (finish_results _) rfl rfl (by rw [hplace]; rfl)
    · cases hstep
  | receive j =>
    simp only [State.step] at hstep
    split at hstep
    · rename_i a hplace ht
      rw [State.next, Option.bind_eq_some_iff] at hstep
      obtain ⟨c, hc, hnext⟩ := hstep
      split at hnext
      -- a result that the condition drops counts as an item whose end has come
      · rename_i r hr
        cases hnext
        refine spent_of_run rfl rfl ?_
        have hone : ((((S.condition j).yields r).map Place.holding).getD .asking).ends = 1 := by
          cases (S.condition j).yields r <;> rfl
        rw [hplace, hone]
        simp only [Place.ends]
        omega
      -- the end of the stream completes the run
      · split at hnext
        · cases hnext
          exact spent_of_place (finish_run _) (finish_results _) rfl rfl (by rw [hplace]; rfl)
        · cases hnext
    · cases hstep
  | deliver j =>
    simp only [State.step] at hstep
    split at hstep
    · rename_i e hplace
      cases hstep
      refine spent_of_run rfl rfl ?_
      rw [hplace, List.length_append, List.length_singleton]
      simp only [Place.ends]
      omega
    · cases hstep
  | handled j r =>
    simp only [State.step] at hstep
    split at hstep
    · rename_i hplace
      cases hstep
      -- a finished task handles nothing
      have hopen : (s.task j).finished = false := by
        cases hf : (s.task j).finished with
        | false => rfl
        | true =>
          have heq := (h.own j).finished.1 hf
          rw [hplace] at heq
          cases heq
      obtain ⟨t', ht', -⟩ := Task.publishResult_walked hM ((h.own j).opened hopen) r
      rw [State.publish, ht']
      refine ⟨j, ?_, fun k hk => ?_⟩
      · simp only [spent, State.goOn, Function.update_self, List.length_append,
          List.length_singleton, hplace, Place.ends]
        omega
      · simp [spent, State.goOn, State.setTask, Function.update_of_ne hk]
    · cases hstep
  | leave j =>
    simp only [State.step] at hstep
    split at hstep
    · rename_i hplace
      cases hstep
      exact spent_of_place (finish_run _) (finish_results _) rfl rfl (by rw [hplace]; rfl)
    · rename_i e hplace
      cases hstep
      exact spent_of_place (finish_run _) (finish_results _) rfl rfl (by rw [hplace]; rfl)
    · cases hstep

/-! ## How long a run is -/

/-- A step is one of one schedule; its trigger gets an event of its own in a step that says so, or a
result. -/
theorem step_run {s t : State σ V E ι} {a : Act V E ι} (hstep : s.step M S a = some t) :
    ∃ (j : ι) (r : Run V E), t.run = Function.update s.run j r ∧
      (r.got = (s.run j).got ∨ r.got = (s.run j).got + 1 ∧
        (a.fires = true ∨ (S.condition j).target? ≠ none)) := by
  -- Only a firing or a receipt counts as something that the run has got.
  cases a with
  | start j =>
    simp only [State.step] at hstep
    split at hstep
    · cases hstep
      rw [State.begin]
      split
      · exact ⟨j, _, rfl, .inl rfl⟩
      · split
        · exact ⟨j, _, rfl, .inl rfl⟩
        · exact ⟨j, _, rfl, .inl rfl⟩
    · cases hstep
  | fire j =>
    simp only [State.step] at hstep
    split at hstep
    · cases hstep
      exact ⟨j, _, rfl, .inr ⟨rfl, .inl rfl⟩⟩
    · cases hstep
  | exhausted j =>
    simp only [State.step] at hstep
    split at hstep
    · cases hstep
      exact ⟨j, _, finish_run _, .inl rfl⟩
    · cases hstep
  | receive j =>
    simp only [State.step] at hstep
    split at hstep
    · rename_i a hplace ht
      rw [State.next, Option.bind_eq_some_iff] at hstep
      obtain ⟨c, hc, hnext⟩ := hstep
      split at hnext
      · cases hnext
        refine ⟨j, _, rfl, .inr ⟨rfl, .inr ?_⟩⟩
        rw [ht]
        exact Option.some_ne_none a
      · split at hnext
        · cases hnext
          exact ⟨j, _, finish_run _, .inl rfl⟩
        · cases hnext
    · cases hstep
  | deliver j =>
    simp only [State.step] at hstep
    split at hstep
    · cases hstep
      exact ⟨j, _, rfl, .inl rfl⟩
    · cases hstep
  | handled j r =>
    simp only [State.step] at hstep
    split at hstep
    · cases hstep
      rw [State.publish]
      split
      · exact ⟨j, _, rfl, .inl rfl⟩
      · exact ⟨j, _, finish_run _, .inl rfl⟩
    · cases hstep
  | leave j =>
    simp only [State.step] at hstep
    split at hstep
    · cases hstep
      exact ⟨j, _, finish_run _, .inl rfl⟩
    · cases hstep
      exact ⟨j, _, finish_run _, .inl rfl⟩
    · cases hstep

/-- A schedule with events of its own gets no more than its trigger fires. -/
theorem got_exec {s t : State σ V E ι} {es : List (Act V E ι)}
    (hrun : (chain M S).exec s es = some t) {j : ι}
    (hj : (S.condition j).target? = none) : (t.run j).got ≤ (s.run j).got +
    es.countP Act.fires := by
  induction es generalizing s with
  | nil =>
    cases hrun
    exact Nat.le_refl _
  | cons a es ih =>
    obtain ⟨u, hu, hrest⟩ := (Lts.exec_cons _).1 hrun
    have hle := ih hrest
    rw [List.countP_cons]
    obtain ⟨k, r, hr, hgot⟩ := step_run (M := M) (S := S) hu
    rw [hr] at hle
    by_cases hkj : k = j
    · subst hkj
      rw [Function.update_self] at hle
      rcases hgot with hsame | ⟨hmore, hfires | htarget⟩
      · omega
      · rw [if_pos hfires]
        omega
      · exact absurd hj htarget
    · rw [Function.update_of_ne (Ne.symm hkj)] at hle
      omega

omit [DecidableEq ι] in
theorem got_initial (j : ι) : ((initial : State σ V E ι).run j).got = 0 := rfl

/-- No schedule gets more events than all triggers have of their own. -/
theorem got_le (hM : M.Documented) (hQ : M.Queues Unbounded) {es : List (Act V E ι)}
    {s : State σ V E ι}
    (hrun : (chain M S).exec initial es = some s) (j : ι) : (s.run j).got ≤
    es.countP Act.fires := by
  have hinv := inv_reachable hM hQ ⟨initial, es, rfl, hrun⟩
  -- from the tasks that were created first
  induction hn : S.created j using Nat.strong_induction_on generalizing j with
  | _ n ih =>
    cases ht : (S.condition j).target? with
    | none =>
      have hle := got_exec hrun ht
      rw [got_initial, Nat.zero_add] at hle
      exact hle
    | some a =>
      cases hbegun : (s.run j).place.begun with
      | false =>
        rw [(hinv.own j).fresh hbegun]
        exact Nat.zero_le _
      | true =>
        obtain ⟨c, hc⟩ := hinv.link j a ht hbegun
        have hown := hinv.own a
        calc (s.run j).got = (M.received c).length := hc.got
          _ ≤ (M.accepted c).length := (hM.fifo c).length_le
          _ ≤ ((s.results a).drop (s.run j).since).length := hc.accepted.length_le
          _ ≤ (s.results a).length := by
            rw [List.length_drop]
            exact Nat.sub_le _ _
          _ ≤ (s.run a).events.length := by
            rw [hown.counted]
            exact Nat.le_add_right _ _
          _ ≤ (s.run a).got := by
            have hheld := hown.held
            rw [List.length_append] at hheld
            exact Nat.le_trans (Nat.le_add_right _ _) hheld
          _ ≤ es.countP Act.fires := ih (S.created a) (hn ▸ S.earlier j a ht) a rfl

/-- No schedule takes more than three steps for each event, and two more. -/
theorem spent_le (hM : M.Documented) (hQ : M.Queues Unbounded) {es : List (Act V E ι)}
    {s : State σ V E ι}
    (hrun : (chain M S).exec initial es = some s) (j : ι) : spent s j ≤
    3 * es.countP Act.fires + 2 := by
  have hinv := inv_reachable hM hQ ⟨initial, es, rfl, hrun⟩
  have hgot := got_le hM hQ hrun j
  have hends := (s.run j).place.ends_le
  have hheld := (hinv.own j).held
  have hcounted := (hinv.own j).counted
  rw [List.length_append] at hheld
  rw [spent]
  omega

/-- Every step is counted. -/
theorem length_eq_spent [Fintype ι] (hM : M.Documented) (hQ : M.Queues Unbounded)
    {es : List (Act V E ι)}
    {s t : State σ V E ι} (h : Inv M S Unbounded s) (hrun : (chain M S).exec s es = some t) :
    es.length + ∑ j, spent s j = ∑ j, spent t j := by
  induction es generalizing s with
  | nil =>
    cases hrun
    exact Nat.zero_add _
  | cons a es ih =>
    obtain ⟨u, hu, hrest⟩ := (Lts.exec_cons _).1 hrun
    rw [← ih (h.step hM hQ hu) hrest, List.length_cons, Nat.add_assoc]
    congr 1
    obtain ⟨j, hj, hother⟩ := spent_step hM h hu
    have hupdate : spent u = Function.update (spent s) j (spent s j + 1) := by
      funext k
      by_cases hk : k = j
      · subst hk
        rw [hj, Function.update_self]
      · rw [hother k hk, Function.update_of_ne hk]
    rw [hupdate, Finset.sum_update_of_mem (Finset.mem_univ j), ← Finset.add_sum_erase _ _
      (Finset.mem_univ j), Finset.sdiff_singleton_eq_erase]
    omega

/-! ## Where a run ends -/

/-- `k` is what `j` waits for, or what that waits for, and so on. -/
abbrev Waits (S : Schedules ι) : ι → ι → Prop := Relation.ReflTransGen fun j a =>
    (S.condition j).target? = some a

/-- Nothing happens any more by itself. -/
def Quiet (M : MemoryStreams σ (Result V E)) (S : Schedules ι) (s : State σ V E ι) : Prop :=
  ∀ a : Act V E ι, a.fires = false → a.leaves = false → s.step M S a = none

/-- Where nothing goes on by itself, a schedule is done or waits for one that failed. -/
theorem completed_of_quiet [Inhabited V] {s : State σ V E ι}
    (h : Inv M S Unbounded s) (hquiet : Quiet M S s) (j : ι) :
    (s.run j).place = .completed ∨ ∃ k : ι, Waits S j k ∧ (s.run k).place = .failed := by
  -- The induction is on the creation: a task waits only for one that was created before.
  induction hn : S.created j using Nat.strong_induction_on generalizing j with
  | _ n ih =>
    cases hplace : (s.run j).place with
    -- a run that waits, holds or handles can go on
    | waiting =>
      have hnone := hquiet (.start j) rfl rfl
      rw [State.step, hplace] at hnone
      cases hnone
    | holding e =>
      have hnone := hquiet (.deliver j) rfl rfl
      rw [State.step, hplace] at hnone
      cases hnone
    | handling =>
      have hnone := hquiet (.handled j (.ok default)) rfl rfl
      rw [State.step, hplace] at hnone
      cases hnone
    | completed => exact .inl rfl
    | failed => exact .inr ⟨j, .refl, hplace⟩
    | asking =>
      cases ht : (S.condition j).target? with
      -- a trigger of its own can end
      | none =>
        have hnone := hquiet (.exhausted j) rfl rfl
        simp only [State.step, hplace, ht] at hnone
        cases hnone
      | some a =>
        rcases ih (S.created a) (hn ▸ S.earlier j a ht) a rfl with hcompleted | ⟨k, hwaits, hfailed⟩
        · -- the stream has an item, or it is at its end
          obtain ⟨c, hc⟩ := h.link j a ht (by rw [hplace]; rfl)
          have hclosed : M.sendClosed c = true :=
            hc.sendClosed.trans ((h.own a).finished.2 hcompleted)
          have hnone := hquiet (.receive j) rfl rfl
          simp only [State.step, hplace, ht, State.next, hc.here, Option.bind_some] at hnone
          split at hnone
          · cases hnone
          · rw [if_pos hclosed] at hnone
            cases hnone
        · exact .inr ⟨k, .head ht hwaits, hfailed⟩

omit [DecidableEq ι] in
/-- What a schedule that is done has been called with. -/
theorem events_of_completed {s : State σ V E ι} (h : Inv M S Unbounded s) {j a : ι}
    (ht : (S.condition j).target? = some a) (hplace : (s.run j).place = .completed)
    (hcalm : Calm S s a) :
    (s.run j).events = ((s.results a).drop (s.run j).since).filterMap (S.condition j).yields := by
  obtain ⟨c, hc⟩ := h.link j a ht (by rw [hplace]; rfl)
  have hkept := hc.kept (hcalm j ht)
  rw [hplace] at hkept
  rw [← hc.exact hcalm, ← (hc.drained hplace (hcalm j ht)).2, ← hkept]
  exact (List.append_nil _).symm

/-- Every run of the schedules takes at most three steps of each schedule for each event that a
trigger has of its own, and two more. Where nothing happens any more by itself, every schedule is
done or waits, through its targets, for one that could not subscribe because its target had
finished. And a schedule that is done has been called with everything that its target has published
since it began, and its handler has returned as often, unless a schedule has left a stream of the
target before its end. -/
theorem chain_drains [Fintype ι] [Inhabited V] (hM : M.Documented) (hQ : M.Queues Unbounded)
    {es : List (Act V E ι)} {s : State σ V E ι} (hrun : (chain M S).exec initial es = some s) :
    es.length ≤ Fintype.card ι * (3 * es.countP Act.fires + 2) ∧
      (Quiet M S s → ∀ j : ι, (s.run j).place = .completed ∨
        ∃ k : ι, Waits S j k ∧ (s.run k).place = .failed) ∧
      ∀ j a : ι, (S.condition j).target? = some a → (s.run j).place = .completed → Calm S s a →
        (s.run j).events = ((s.results a).drop (s.run j).since).filterMap (S.condition j).yields ∧
          (s.results j).length = (s.run j).events.length := by
  have hinv : Inv M S Unbounded s := inv_reachable hM hQ ⟨initial, es, rfl, hrun⟩
  refine ⟨?_, completed_of_quiet hinv, fun j a ht hplace hcalm =>
    ⟨events_of_completed hinv ht hplace hcalm, ?_⟩⟩
  · have hlength := length_eq_spent hM hQ (inv_initial : Inv M S Unbounded initial) hrun
    calc es.length ≤ es.length + ∑ j, spent (initial : State σ V E ι) j := Nat.le_add_right _ _
      _ = ∑ j, spent s j := hlength
      _ ≤ ∑ _j : ι, (3 * es.countP Act.fires + 2) := Finset.sum_le_sum fun j _ =>
        spent_le hM hQ hrun j
      _ = Fintype.card ι * (3 * es.countP Act.fires + 2) := Finset.sum_const_nat fun _ _ => rfl
  · have hcounted := (hinv.own j).counted
    rw [hplace] at hcounted
    exact hcounted.symm

end

/-- The earlier task stops after an event, and then the later one. -/
def stops : List (Act Nat String Bool) :=
  [.start false, .start true, .fire false, .deliver false, .handled false (.ok 5), .exhausted false,
    .receive true, .deliver true, .handled true (.ok 6), .receive true]

theorem chain_drains_stops :
    ∃ s, (chain Deque.streams twoTasks).exec initial stops = some s ∧ (s.run true).place =
      .completed ∧ (s.run true).events =
        ((s.results false).drop (s.run true).since).filterMap (Condition.after false).yields := by
  have hsome : ((chain Deque.streams twoTasks).exec initial stops).isSome = true := rfl
  have hrun := (Option.some_get hsome).symm
  obtain ⟨-, -, hdone⟩ := chain_drains Deque.documented Deque.queues (S := twoTasks) hrun
  refine ⟨_, hrun, rfl, (hdone true false rfl rfl ?_).1⟩
  intro k hk
  match k with
  | false => rfl
  | true => rfl

end LocalPost.Scheduler.Chained
