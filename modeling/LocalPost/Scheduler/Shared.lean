import LocalPost.Core.Lts
import LocalPost.Scheduler.Task
import Mathlib.Logic.Function.Basic

/-!
# A task shared by several schedules

Every schedule enters the task when its trigger has been set up, calls it for every event and leaves
it when the trigger ends. Its subscribers receive from their streams and close them at any time.

A schedule that leaves before another has entered is the last user of the task for the time being:
it closes the streams, and the other's first result cannot be published (`closed_before_entered`).
The streams stay open exactly in the runs in which the last user leaves after all schedules have
completed (`streams_stay_open_iff`).

While the streams are open, every live subscriber gets every result exactly in the runs in which, at
each publication, an even number of consecutive broken subscribers stands directly before every live
one (`fan_out_iff`).
-/

set_option autoImplicit false

namespace LocalPost.Scheduler

open LocalPost.Core

/-- Where the `run` of a schedule stands: before it has entered the task, between two events, in the
handler, on the way out of the task after an exception, at its end. -/
inductive Stage where
  | waiting
  | inside
  | running
  | leaving
  | completed
  deriving DecidableEq, Repr

/-- Schedules that share a task. No step reads `raised` and `due`: the schedules whose call has
raised an error of a stream, and, for each subscriber, the results that were published while it was
live. -/
structure Shared (σ V E ι : Type) where
  task : Task σ
  stage : ι → Stage
  raised : List ι
  due : Nat → List (Result V E)

/-- What can happen: a schedule enters the task, ends without having entered it, gets an event; its
handler returns or raises (`handled`), or is cancelled; the schedule leaves the task; a subscriber
comes, receives, closes its stream. -/
inductive SharedEvent (V E ι : Type) where
  | enter (i : ι)
  | abandon (i : ι)
  | fire (i : ι)
  | handled (i : ι) (result : Result V E)
  | cancelled (i : ι)
  | exit (i : ι)
  | subscribe (bufferMaxSize : Option Nat)
  | receive (id : Nat)
  | closeReceive (id : Nat)

namespace Shared

variable {σ V E ι : Type} [DecidableEq ι] (M : MemoryStreams σ (Result V E))

/-- A schedule is at another place. -/
def goto (s : Shared σ V E ι) (i : ι) (stage : Stage) : Shared σ V E ι :=
  { s with stage := Function.update s.stage i stage }

/-- The results due to each subscriber after one more publication. -/
def dueAfter (s : Shared σ V E ι) (result : Result V E) (id : Nat) : List (Result V E) :=
  if s.task.streams[id]?.any M.live then s.due id ++ [result] else s.due id

/-- The end of `Task.__call__`: a publication that raises leaves the `async for` of the schedule. -/
def publish (s : Shared σ V E ι) (i : ι) (result : Result V E) : Shared σ V E ι :=
  { s with
    task := (s.task.publishResult M result).1
    stage := Function.update s.stage i
      (if (s.task.publishResult M result).2 = none then .inside else .leaving)
    raised := if (s.task.publishResult M result).2 = none then s.raised else s.raised ++ [i]
    due := s.dueAfter M result }

/-- One step. -/
def step (s : Shared σ V E ι) : SharedEvent V E ι → Option (Shared σ V E ι)
  | .enter i =>
    if s.stage i = .waiting then some { s.goto i .inside with task := s.task.enter } else none
  | .abandon i => if s.stage i = .waiting then some (s.goto i .completed) else none
  | .fire i => if s.stage i = .inside then some (s.goto i .running) else none
  | .handled i result => if s.stage i = .running then some (s.publish M i result) else none
  | .cancelled i => if s.stage i = .running then some (s.goto i .leaving) else none
  | .exit i =>
    if s.stage i = .inside ∨ s.stage i = .leaving then
      some { s.goto i .completed with task := s.task.exit M }
    else none
  | .subscribe bufferMaxSize =>
    match s.task.subscribe M bufferMaxSize with
    | .ok task => some { s with task := task }
    | .error _ => some s
  | .receive id =>
    match s.task.streams[id]? with
    | some stream => some { s with task := s.task.setStream id (M.receive stream).2 }
    | none => none
  | .closeReceive id =>
    match s.task.streams[id]? with
    | some stream => some { s with task := s.task.setStream id (M.closeReceive stream) }
    | none => none

/-- A new task, before any schedule has started. -/
def initial : Shared σ V E ι := ⟨.fresh, fun _ => .waiting, [], fun _ => []⟩

/-- The schedules as a transition system. -/
def lts : Lts (Shared σ V E ι) (SharedEvent V E ι) := ⟨(· = initial), step M⟩

/-- The streams of the task stay open until every schedule has completed: they are not closed and no
subscriber is told the end before that, and no call has raised because of them. -/
structure StaysOpen (s : Shared σ V E ι) : Prop where
  finished : s.task.finished = true → ∀ j : ι, s.stage j = .completed
  closed : ∀ stream ∈ s.task.streams, M.sendClosed stream = true → ∀ j : ι, s.stage j = .completed
  atEnd : ∀ stream ∈ s.task.streams, M.atEnd stream → ∀ j : ι, s.stage j = .completed
  raised : s.raised = []

/-- The condition on the lifetime: the user that leaves last leaves after all the schedules. -/
def LeavesLast (s : Shared σ V E ι) : SharedEvent V E ι → Prop
  | .exit i => s.task.users = 1 → ∀ j : ι, j ≠ i → s.stage j = .completed
  | _ => True

/-- While the streams are open, a subscriber whose receiver is there is in the list, and what its
stream has accepted is every result published while it was live, in order; what it has received is
the beginning of this. -/
def Delivers (s : Shared σ V E ι) : Prop :=
  s.task.finished = false → ∀ (id : Nat) (stream : σ), s.task.streams[id]? = some stream →
    M.receiveClosed stream = false →
      M.accepted stream = s.due id ∧ M.received stream <+: s.due id ∧ id ∈ s.task.subscribers

/-- The condition on a publication: before every live subscriber stands an even number of
consecutive broken ones. -/
def EvenlyBroken (s : Shared σ V E ι) : SharedEvent V E ι → Prop
  | .handled _ _ => s.task.finished = false → ∀ (pre post : List Nat) (id : Nat) (stream : σ),
      s.task.subscribers = pre ++ id :: post → s.task.streams[id]? = some stream →
        M.live stream = true → Even (Task.goneBefore (s.task.broken M) pre)
  | _ => True

/-! ## The invariant -/

variable {M}

/-- Streams of an unfinished task are open, and nothing is due to a subscriber before it comes. -/
structure Inv (M : MemoryStreams σ (Result V E)) (s : Shared σ V E ι) : Prop where
  opened : s.task.finished = false → Task.Open M s.task
  fresh : ∀ id : Nat, s.task.streams.length ≤ id → s.due id = []

omit [DecidableEq ι] in
theorem inv_initial : Inv M (initial : Shared σ V E ι) where
  opened _ := ⟨fun _ h => (by cases h), List.nodup_nil, fun _ h => (by cases h)⟩
  fresh _ _ := rfl

/-- What a step can do: a schedule is at another place and the streams are as they were, a result is
published, a schedule leaves the task, a subscriber comes or is refused, a stream goes on with its
ends as they were or without its receiver. -/
inductive Moves (M : MemoryStreams σ (Result V E)) (s : Shared σ V E ι) :
    SharedEvent V E ι → Shared σ V E ι → Prop where
  | placed {e : SharedEvent V E ι} (i : ι) (stage : Stage) (task : Task σ)
    (hi : s.stage i ≠ .completed)
      (hstreams : task.streams = s.task.streams) (hsubs : task.subscribers = s.task.subscribers)
      (hfinished : task.finished = s.task.finished) (hlast : LeavesLast s e)
        (heven : EvenlyBroken M s e) :
      Moves M s e { s.goto i stage with task := task }
  | published (i : ι) (result : Result V E) (hi : s.stage i ≠ .completed) :
      Moves M s (.handled i result) (s.publish M i result)
  | left (i : ι) (hi : s.stage i ≠ .completed) :
      Moves M s (.exit i) { s.goto i .completed with task := s.task.exit M }
  | subscribed (max : Option Nat) (hfin : s.task.finished = false) :
      Moves M s (.subscribe max) { s with task := { s.task with
        streams := s.task.streams ++ [M.create max]
        subscribers := s.task.subscribers ++ [s.task.streams.length] } }
  | refused (max : Option Nat) : Moves M s (.subscribe max) s
  | received {e : SharedEvent V E ι} {id : Nat} {a b : σ} (ha : s.task.streams[id]? = some a)
      (hsend : M.sendClosed b = M.sendClosed a) (haccepted : M.accepted b = M.accepted a)
      (hhere : M.receiveClosed b = false → M.receiveClosed a = false) (hlast : LeavesLast s e)
      (heven : EvenlyBroken M s e) : Moves M s e { s with task := s.task.setStream id b }

/-- What a step does to the task and its schedules. -/
theorem moves_of_step (hM : M.Documented) {s : Shared σ V E ι} {e : SharedEvent V E ι}
    {t : Shared σ V E ι} (hstep : s.step M e = some t) : Moves M s e t := by
  cases e with
  -- These four move one instance and leave the streams alone.
  | enter i =>
    simp only [Shared.step, Option.ite_none_right_eq_some, Option.some.injEq] at hstep
    obtain ⟨hi, rfl⟩ := hstep
    exact .placed i .inside s.task.enter (by rw [hi]; simp) rfl rfl rfl trivial trivial
  | abandon i =>
    simp only [Shared.step, Option.ite_none_right_eq_some, Option.some.injEq] at hstep
    obtain ⟨hi, rfl⟩ := hstep
    exact .placed i .completed s.task (by rw [hi]; simp) rfl rfl rfl trivial trivial
  | fire i =>
    simp only [Shared.step, Option.ite_none_right_eq_some, Option.some.injEq] at hstep
    obtain ⟨hi, rfl⟩ := hstep
    exact .placed i .running s.task (by rw [hi]; simp) rfl rfl rfl trivial trivial
  | cancelled i =>
    simp only [Shared.step, Option.ite_none_right_eq_some, Option.some.injEq] at hstep
    obtain ⟨hi, rfl⟩ := hstep
    exact .placed i .leaving s.task (by rw [hi]; simp) rfl rfl rfl trivial trivial
  | handled i result =>
    simp only [Shared.step, Option.ite_none_right_eq_some, Option.some.injEq] at hstep
    obtain ⟨hi, rfl⟩ := hstep
    exact .published i result (by rw [hi]; simp)
  | exit i =>
    simp only [Shared.step, Option.ite_none_right_eq_some, Option.some.injEq] at hstep
    obtain ⟨hi, rfl⟩ := hstep
    refine .left i ?_
    rcases hi with hi | hi
    · rw [hi]
      simp
    · rw [hi]
      simp
  | subscribe max =>
    cases hfin : s.task.finished with
    | true =>
      simp only [Shared.step, Task.subscribe, hfin, if_true, Option.some.injEq] at hstep
      rw [← hstep]
      exact .refused max
    | false =>
      simp only [Shared.step, Task.subscribe, hfin, Bool.false_eq_true, if_false,
        Option.some.injEq] at hstep
      subst hstep
      simpa only [hfin] using Moves.subscribed max hfin
  -- A receiver changes its own stream only, and accepts nothing there.
  | receive id =>
    cases hs : s.task.streams[id]? with
    | none => simp [Shared.step, hs] at hstep
    | some stream =>
      simp only [Shared.step, hs, Option.some.injEq] at hstep
      subst hstep
      have halike := hM.receive_alike stream
      exact .received hs halike.sendClosed halike.accepted
        (fun hopen => halike.receiveClosed.symm.trans hopen) trivial trivial
  | closeReceive id =>
    cases hs : s.task.streams[id]? with
    | none => simp [Shared.step, hs] at hstep
    | some stream =>
      simp only [Shared.step, hs, Option.some.injEq] at hstep
      subst hstep
      obtain ⟨haccepted, hsend, hclosed⟩ := hM.closeReceive_accepted stream
      exact .received hs hsend haccepted (fun hopen => absurd (hclosed.symm.trans hopen) (by simp))
        trivial trivial

/-- A stream is replaced by one whose sending end is as it was. -/
theorem Open.setStream {t : Task σ} (h : Task.Open M t) {id : Nat} {a b : σ}
    (ha : t.streams[id]? = some a) (hb : M.sendClosed b = M.sendClosed a) :
    Task.Open M (t.setStream id b) where
  sending r hr := by
    rcases List.mem_or_eq_of_mem_set hr with hr | rfl
    · exact h.sending r hr
    · exact hb.trans (h.sending a (List.mem_of_getElem? ha))
  nodup := h.nodup
  valid j hj := by
    rw [Task.setStream, List.length_set]
    exact h.valid j hj

/-- A new subscriber leaves the task open. -/
theorem Open.subscribe (hM : M.Documented) {t : Task σ} (h : Task.Open M t) (max : Option Nat) :
    Task.Open M { t with
      streams := t.streams ++ [M.create max], subscribers :=
        t.subscribers ++ [t.streams.length] } where
  sending r hr := by
    rcases List.mem_append.1 hr with hr | hr
    · exact h.sending r hr
    · rw [List.mem_singleton.1 hr]
      exact (hM.created max).1
  nodup := by
    refine List.nodup_append.2 ⟨h.nodup, List.nodup_singleton _, fun a ha b hb => ?_⟩
    rw [List.mem_singleton.1 hb]
    exact Nat.ne_of_lt (h.valid a ha)
  valid id hid := by
    rw [List.length_append, List.length_singleton]
    rcases List.mem_append.1 hid with hid | hid
    · exact Nat.lt_succ_of_lt (h.valid id hid)
    · rw [List.mem_singleton.1 hid]
      exact Nat.lt_succ_self _

/-- Every stream after a publication comes from the one before it. -/
theorem stream_of_walked {result : Result V E} {t t' : Task σ}
    (h : Task.Walked M result [] t.subscribers t t') {id : Nat} {b : σ}
    (hb : t'.streams[id]? = some b) : ∃ a, t.streams[id]? = some a ∧
      if id ∈ Task.visited (t.broken M) t.subscribers then Task.Gets M result a b else b = a := by
  obtain ⟨hlt, -⟩ := List.getElem?_eq_some_iff.1 hb
  rw [h.length] at hlt
  have ha : t.streams[id]? = some t.streams[id] := List.getElem?_eq_getElem hlt
  obtain ⟨b', hb', hout⟩ := h.stream id _ ha
  cases hb.symm.trans hb'
  exact ⟨_, ha, hout⟩

/-- A publication keeps the ends of a stream. -/
theorem closed_of_gets {result : Result V E} {a b : σ} {p : Prop} [Decidable p]
    (hopen : M.sendClosed a = false) (h : if p then Task.Gets M result a b else b = a) :
    M.sendClosed b = false ∧ M.receiveClosed b = M.receiveClosed a := by
  have hsame : b = a → M.sendClosed b = false ∧ M.receiveClosed b = M.receiveClosed a := by
    rintro rfl
    exact ⟨hopen, rfl⟩
  split at h
  · rw [Task.Gets] at h
    split at h
    · rename_i hlive
      have hhere : M.receiveClosed a = false := by
        simp only [MemoryStreams.live, Bool.and_eq_true, Bool.not_eq_true'] at hlive
        exact hlive.1
      exact ⟨h.1, h.2.1.trans hhere.symm⟩
    · exact hsame h
  · exact hsame h

/-- A result that is published leaves the task open. -/
theorem Open.publish {result : Result V E} {t t' : Task σ} (h : Task.Open M t)
    (hwalked : Task.Walked M result [] t.subscribers t t') : Task.Open M t' where
  sending r hr := by
    obtain ⟨id, hid⟩ := List.mem_iff_getElem?.1 hr
    obtain ⟨a, ha, hout⟩ := stream_of_walked hwalked hid
    exact (closed_of_gets (h.sending a (List.mem_of_getElem? ha)) hout).1
  nodup := by
    obtain ⟨kept, hsubs, hsub, -⟩ := hwalked.kept
    rw [hsubs, List.nil_append]
    exact h.nodup.sublist hsub
  valid id hid := by
    obtain ⟨kept, hsubs, hsub, -⟩ := hwalked.kept
    rw [hsubs, List.nil_append] at hid
    rw [hwalked.length]
    exact h.valid id (hsub.subset hid)

/-- Publishing a result keeps the invariant of the streams. -/
theorem Inv.publish (hM : M.Documented) {s : Shared σ V E ι} (h : Inv M s) (i : ι)
    (result : Result V E) : Inv M (s.publish M i result) where
  opened hfin := by
    obtain ⟨-, hfinished, -⟩ :=
      Task.publishLoop_frame (M := M) result s.task.subscribers.length 0 s.task
    have hopen := h.opened (hfinished.symm.trans hfin)
    obtain ⟨t', ht', hwalked⟩ := Task.publishResult_walked hM hopen result
    rw [Shared.publish, ht']
    exact Open.publish hopen hwalked
  fresh id hid := by
    obtain ⟨-, -, hlength⟩ :=
      Task.publishLoop_frame (M := M) result s.task.subscribers.length 0 s.task
    have hle : s.task.streams.length ≤ id := hlength ▸ hid
    have hnone : s.task.streams[id]? = none := List.getElem?_eq_none hle
    simp [Shared.publish, dueAfter, hnone, h.fresh id hle]

/-- Every step keeps the invariant of the streams. -/
theorem Inv.step (hM : M.Documented) {s : Shared σ V E ι} {e : SharedEvent V E ι}
    {t : Shared σ V E ι} (h : Inv M s) (hstep : s.step M e = some t) : Inv M t := by
  cases moves_of_step hM hstep with
  | placed i stage task hi hstreams hsubs hfinished =>
    refine ⟨fun hfin => ?_, fun id hid => h.fresh id (hstreams ▸ hid)⟩
    obtain ⟨hsending, hnodup, hvalid⟩ := h.opened (hfinished.symm.trans hfin)
    rw [← hstreams] at hsending hvalid
    rw [← hsubs] at hnodup hvalid
    exact ⟨hsending, hnodup, hvalid⟩
  | published i result => exact h.publish hM i result
  | left i hi =>
    rw [Task.exit]
    split
    · refine ⟨fun hfin => (by cases hfin), fun id hid => h.fresh id ?_⟩
      simpa using hid
    · exact ⟨fun hfin => ⟨(h.opened hfin).1, (h.opened hfin).2, (h.opened hfin).3⟩, h.fresh⟩
  | subscribed max hfin =>
    refine ⟨fun _ => Open.subscribe hM (h.opened hfin) max, fun id hid => h.fresh id ?_⟩
    simp only [List.length_append, List.length_singleton] at hid
    omega
  | refused max => exact h
  | received ha hsend =>
    refine ⟨fun hfin => Open.setStream (h.opened hfin) ha hsend, fun id hid => h.fresh id ?_⟩
    simpa [Task.setStream] using hid

/-! ## The streams stay open -/

omit [DecidableEq ι] in
/-- The call of a running schedule does not raise while the streams are open. -/
theorem publish_raised (hM : M.Documented) {s : Shared σ V E ι} (h : Inv M s)
    (hfin : s.task.finished = false) (result : Result V E) :
    (s.task.publishResult M result).2 = none := by
  obtain ⟨t', ht', -⟩ := Task.publishResult_walked hM (h.opened hfin) result
  rw [ht']

omit [DecidableEq ι] in
/-- Only the end of the task and what was raised decide whether the streams stay open. -/
theorem staysOpen_iff {s : Shared σ V E ι} (h : Inv M s) :
    StaysOpen M s ↔ (s.task.finished = true → ∀ j : ι, s.stage j = .completed) ∧ s.raised = [] := by
  constructor
  · exact fun hs => ⟨hs.finished, hs.raised⟩
  · rintro ⟨hfinished, hraised⟩
    have hclosed : ∀ stream ∈ s.task.streams, M.sendClosed stream = true →
        ∀ j : ι, s.stage j = .completed := by
      intro stream hmem hclosed
      apply hfinished
      cases hfin : s.task.finished with
      | true => rfl
      | false => exact absurd (((h.opened hfin).sending stream hmem).symm.trans hclosed) (by simp)
    exact ⟨hfinished, hclosed, fun stream hmem hend => hclosed stream hmem hend.1, hraised⟩

omit [DecidableEq ι] in
/-- A schedule that has not completed finds the task unfinished. -/
theorem StaysOpen.unfinished {s : Shared σ V E ι} (h : StaysOpen M s) {i : ι}
    (hi : s.stage i ≠ .completed) : s.task.finished = false := by
  cases hfin : s.task.finished with
  | false => rfl
  | true => exact absurd (h.finished hfin i) hi

/-- One step, from a state in which the streams have stayed open. -/
theorem staysOpen_step_iff (hM : M.Documented) {s : Shared σ V E ι} {e : SharedEvent V E ι}
    {t : Shared σ V E ι} (h : Inv M s) (hs : StaysOpen M s) (hstep : s.step M e = some t) :
    StaysOpen M t ↔ LeavesLast s e := by
  rw [staysOpen_iff (h.step hM hstep)]
  -- apart from the exit, no step finishes the task or raises
  have hfree : (t.task.finished = true → ∀ j : ι, t.stage j = .completed) → t.raised = [] →
      LeavesLast s e →
      (((t.task.finished = true → ∀ j : ι, t.stage j = .completed) ∧ t.raised = []) ↔
        LeavesLast s e) :=
    fun hfinished hraised he => ⟨fun _ => he, fun _ => ⟨hfinished, hraised⟩⟩
  have hvacuous : ∀ {u : Task σ} {P : Prop}, u.finished = s.task.finished →
      s.task.finished = false → u.finished = true → P := by
    intro u P hu hfin htrue
    rw [hu, hfin] at htrue
    cases htrue
  cases moves_of_step hM hstep with
  | placed i stage task hi hstreams hsubs hfinished hlast =>
    exact hfree (hvacuous hfinished (hs.unfinished hi)) hs.raised hlast
  | published i result hi =>
    have hfin := hs.unfinished hi
    obtain ⟨-, hfinished, -⟩ :=
      Task.publishLoop_frame (M := M) result s.task.subscribers.length 0 s.task
    refine hfree (hvacuous hfinished hfin) ?_ trivial
    rw [Shared.publish, publish_raised hM h hfin]
    exact hs.raised
  | left i hi =>
    by_cases husers : s.task.users = 1
    · simp only [Task.exit, husers, goto, LeavesLast]
      constructor
      · rintro ⟨hall, -⟩ - j hj
        simpa [Function.update_of_ne hj] using hall rfl j
      · intro hall
        refine ⟨fun _ j => ?_, hs.raised⟩
        by_cases hj : j = i
        · subst hj
          simp
        · simpa [Function.update_of_ne hj] using hall trivial j hj
    · have hne : s.task.users - 1 ≠ 0 := by omega
      have hexit : (s.task.exit M).finished = s.task.finished := by
        rw [Task.exit, if_neg hne]
      exact hfree (hvacuous hexit (hs.unfinished hi)) hs.raised fun h1 => absurd h1 husers
  | subscribed max hfin => exact hfree (hvacuous rfl hfin) hs.raised trivial
  | refused max => exact hfree hs.finished hs.raised trivial
  | received ha hsend haccepted hhere hlast => exact hfree hs.finished hs.raised hlast

/-- In a run, the streams stay open until every schedule has completed, exactly when the exit that
leaves no user comes after all other schedules have completed. -/
theorem streams_stay_open_iff (hM : M.Documented) {es : List (SharedEvent V E ι)}
    {s : Shared σ V E ι} (hrun : (lts M).exec initial es = some s) :
    (lts M).Throughout (StaysOpen M) initial es ↔ (lts M).Meets LeavesLast initial es := by
  refine Lts.throughout_iff_meets (M := lts M) (I := Inv M) ?_ ?_ inv_initial ?_ hrun
  · exact fun _ _ _ h hstep => h.step hM hstep
  · exact fun _ _ _ h hs hstep => staysOpen_step_iff hM h hs hstep
  · exact (staysOpen_iff inv_initial).2 ⟨fun h => (by cases h), rfl⟩

/-- Two schedules, the second with a subscriber: the first has no events and leaves before the
second has entered. -/
def earlyExit : List (SharedEvent Nat String Bool) :=
  [.subscribe none, .enter false, .exit false, .enter true, .fire true, .handled true (.ok 7)]

/-- The streams are closed while a schedule has not started, and its first call raises. -/
theorem closed_before_entered :
    ∃ s : Shared (Deque (Result Nat String)) Nat String Bool,
      (lts Deque.streams).exec initial earlyExit = some s ∧ s.stage true ≠ .completed ∧
        (∀ stream ∈ s.task.streams, Deque.streams.atEnd stream) ∧ s.raised = [true] ∧
          ¬ StaysOpen Deque.streams s := by
  refine ⟨_, rfl, by decide, ?_, rfl, fun h => by cases h.raised⟩
  intro stream hmem
  rw [List.mem_singleton.1 hmem]
  exact ⟨rfl, rfl⟩

/-- Both schedules enter, each is called once, both leave. -/
def overlapping : List (SharedEvent Nat String Bool) :=
  [.subscribe none, .enter false, .fire false, .enter true, .fire true, .handled false (.ok 7),
    .exit false, .handled true (.failure "oops"), .receive 0, .exit true]

instance (s : Shared σ V E Bool) (e : SharedEvent V E Bool) : Decidable (LeavesLast s e) :=
  match e with
  | .exit i =>
    inferInstanceAs (Decidable (s.task.users = 1 → ∀ j : Bool, j ≠ i → s.stage j = .completed))
  | .enter _ => .isTrue trivial
  | .abandon _ => .isTrue trivial
  | .fire _ => .isTrue trivial
  | .handled _ _ => .isTrue trivial
  | .cancelled _ => .isTrue trivial
  | .subscribe _ => .isTrue trivial
  | .receive _ => .isTrue trivial
  | .closeReceive _ => .isTrue trivial

theorem streams_stay_open_iff_overlapping :
    (lts Deque.streams).Throughout (StaysOpen Deque.streams) initial overlapping := by
  apply (streams_stay_open_iff Deque.documented rfl).2
  decide

/-! ## Every live subscriber gets every result -/

omit [DecidableEq ι] in
/-- What is due to a subscriber, and in its stream, after a publication. -/
theorem due_of_gets {s : Shared σ V E ι} {result : Result V E} {id : Nat} {a b : σ}
    (ha : s.task.streams[id]? = some a) (hdue : M.accepted a = s.due id)
    (hgets : Task.Gets M result a b) : M.accepted b = s.dueAfter M result id := by
  rw [dueAfter, ha, Option.any_some]
  rw [Task.Gets] at hgets
  split at hgets
  · rename_i hlive
    rw [if_pos hlive, hgets.2.2, hdue]
  · rename_i hlive
    rw [if_neg hlive, hgets, hdue]

/-- A publication on open streams reaches every live subscriber if the broken ones stand evenly, and
only then. -/
theorem delivers_publish_iff (hM : M.Documented) {s : Shared σ V E ι} (h : Inv M s)
    (hs : Delivers M s) (hfin : s.task.finished = false) (i : ι) (result : Result V E) :
    Delivers M (s.publish M i result) ↔ EvenlyBroken M s (.handled i result) := by
  have hopen := h.opened hfin
  obtain ⟨t', ht', hwalked⟩ := Task.publishResult_walked hM hopen result
  have htask : (s.publish M i result).task = t' := by rw [Shared.publish, ht']
  have hdue : (s.publish M i result).due = s.dueAfter M result := rfl
  constructor
  · intro hdelivers _ pre post id stream hsubs hstream hlive
    by_contra hodd
    have hhere : M.receiveClosed stream = false := by
      simp only [MemoryStreams.live, Bool.and_eq_true, Bool.not_eq_true'] at hlive
      exact hlive.1
    obtain ⟨b, hb, hout⟩ := hwalked.stream id stream hstream
    -- the loop has not come by, and the stream is as it was
    rw [if_neg fun hmem => hodd ((Task.mem_visited_iff hopen.nodup hsubs).1 hmem)] at hout
    subst hout
    have haccepted := (hdelivers (by rw [htask, hwalked.finished]; exact hfin) id b
      (by rw [htask]; exact hb) hhere).1
    rw [hdue, dueAfter, hstream, Option.any_some, if_pos hlive,
      (hs hfin id b hstream hhere).1] at haccepted
    simp at haccepted
  · intro heven _ id b hb hhere
    rw [htask] at hb
    rw [htask, hdue]
    obtain ⟨a, ha, hout⟩ := stream_of_walked hwalked hb
    have hends := closed_of_gets (hopen.sending a (List.mem_of_getElem? ha)) hout
    have hhere' : M.receiveClosed a = false := hends.2.symm.trans hhere
    obtain ⟨haccepted, -, hmem⟩ := hs hfin id a ha hhere'
    have hgets : Task.Gets M result a b := by
      by_cases hlive : M.live a = true
      · obtain ⟨pre, post, hsubs⟩ := List.append_of_mem hmem
        have hvisited := (Task.mem_visited_iff hopen.nodup hsubs).2
          (heven hfin pre post id a hsubs ha hlive)
        rw [if_pos hvisited] at hout
        exact hout
      · -- no room: the result is dropped, whether the loop comes by or not
        split at hout
        · exact hout
        · rw [Task.Gets, if_neg hlive]
          exact hout
    have hdue' := due_of_gets ha haccepted hgets
    refine ⟨hdue', hdue' ▸ hM.fifo b, ?_⟩
    obtain ⟨kept, hkept, -, hkeeps⟩ := hwalked.kept
    rw [hkept, List.nil_append]
    exact hkeeps id hmem ((Task.broken_eq ha).trans hhere')

omit [DecidableEq ι] in
/-- A step on one stream that leaves what it has accepted. -/
theorem Delivers.setStream (hM : M.Documented) {s : Shared σ V E ι} (hs : Delivers M s) {id : Nat}
    {a b : σ} (ha : s.task.streams[id]? = some a) (haccepted : M.accepted b = M.accepted a)
    (hhere : M.receiveClosed b = false → M.receiveClosed a = false) :
    Delivers M { s with task := s.task.setStream id b } := by
  intro hfin id' stream hstream hopen
  obtain ⟨hlt, -⟩ := List.getElem?_eq_some_iff.1 ha
  by_cases hid : id = id'
  · subst hid
    have hb : stream = b := by
      have hset : (s.task.streams.set id b)[id]? = some stream := hstream
      rw [List.getElem?_set_self hlt] at hset
      exact (Option.some.inj hset).symm
    subst hb
    obtain ⟨hdue, -, hmem⟩ := hs hfin id a ha (hhere hopen)
    have hdue' : M.accepted stream = s.due id := haccepted.trans hdue
    exact ⟨hdue', hdue' ▸ hM.fifo stream, hmem⟩
  · have hold : s.task.streams[id']? = some stream := by
      have hset : (s.task.streams.set id b)[id']? = some stream := hstream
      rwa [List.getElem?_set_ne hid] at hset
    exact hs hfin id' stream hold hopen

omit [DecidableEq ι] in
/-- A new subscriber is in the list, and nothing is due to it yet. -/
theorem Delivers.subscribe (hM : M.Documented) {s : Shared σ V E ι} (h : Inv M s)
    (hs : Delivers M s) (hfin : s.task.finished = false) (max : Option Nat) :
    Delivers M { s with task := { s.task with
      streams := s.task.streams ++ [M.create max]
      subscribers := s.task.subscribers ++ [s.task.streams.length] } } := by
  intro _ id stream hstream hopen
  have happend : (s.task.streams ++ [M.create max])[id]? = some stream := hstream
  rcases Nat.lt_or_ge id s.task.streams.length with hlt | hge
  · rw [List.getElem?_append_left hlt] at happend
    obtain ⟨hdue, hreceived, hmem⟩ := hs hfin id stream happend hopen
    exact ⟨hdue, hreceived, List.mem_append_left _ hmem⟩
  · rw [List.getElem?_append_right hge, List.getElem?_singleton] at happend
    split at happend
    · rename_i hlast
      obtain rfl : id = s.task.streams.length := by omega
      obtain rfl := Option.some.inj happend
      have hdue : M.accepted (M.create max) = s.due s.task.streams.length := by
        rw [(hM.created max).2.2, h.fresh _ (Nat.le_refl _)]
      exact ⟨hdue, hdue ▸ hM.fifo _, List.mem_append_right _ (List.mem_singleton.2 rfl)⟩
    · cases happend

/-- One step, from a state in which every live subscriber has what is due to it. -/
theorem delivers_step_iff (hM : M.Documented) {s : Shared σ V E ι} {e : SharedEvent V E ι}
    {t : Shared σ V E ι} (h : Inv M s) (hs : Delivers M s) (hstep : s.step M e = some t) :
    Delivers M t ↔ EvenlyBroken M s e := by
  -- a step that loses nothing leaves the property as it was
  have hfree : Delivers M t → EvenlyBroken M s e → (Delivers M t ↔ EvenlyBroken M s e) :=
    fun ht he => ⟨fun _ => he, fun _ => ht⟩
  cases moves_of_step hM hstep with
  | placed i stage task hi hstreams hsubs hfinished hlast heven =>
    refine hfree (fun hfin id stream hstream hhere => ?_) heven
    obtain ⟨hdue, hreceived, hmem⟩ :=
      hs (hfinished.symm.trans hfin) id stream (hstreams ▸ hstream) hhere
    exact ⟨hdue, hreceived, hsubs.symm ▸ hmem⟩
  | published i result hi =>
    -- an open task publishes to its subscribers; a finished one has no stream to send to
    cases hfin : s.task.finished with
    | false => exact delivers_publish_iff hM h hs hfin i result
    | true =>
      obtain ⟨-, hfinished, -⟩ :=
        Task.publishLoop_frame (M := M) result s.task.subscribers.length 0 s.task
      refine hfree (fun hopen => ?_) fun hopen => ?_
      · exact absurd ((hfinished.trans hfin).symm.trans hopen) (by simp)
      · exact absurd (hfin.symm.trans hopen) (by simp)
  | left i hi =>
    refine hfree ?_ trivial
    -- the last user closes the streams, and only open ones are spoken of
    rw [Task.exit]
    split
    · exact fun hfin => (by cases hfin)
    · exact hs
  | subscribed max hfin => exact hfree (hs.subscribe hM h hfin max) trivial
  | refused max => exact hfree hs trivial
  | received ha hsend haccepted hhere hlast heven =>
    exact hfree (hs.setStream hM ha haccepted hhere) heven

/-- In a run, every subscriber gets what is published while it is live, once and in order, and stays
in the list while its receiver is there, exactly when at each publication the broken subscribers
directly before every live one are even in number. -/
theorem fan_out_iff (hM : M.Documented) {es : List (SharedEvent V E ι)} {s : Shared σ V E ι}
    (hrun : (lts M).exec initial es = some s) :
    (lts M).Throughout (Delivers M) initial es ↔ (lts M).Meets (EvenlyBroken M) initial es := by
  refine Lts.throughout_iff_meets (M := lts M) (I := Inv M) ?_ ?_ inv_initial ?_ hrun
  · exact fun _ _ _ h hstep => h.step hM hstep
  · exact fun _ _ _ h hs hstep => delivers_step_iff hM h hs hstep
  · exact fun _ id stream hstream => (by simp [initial, Task.fresh] at hstream)

omit [DecidableEq ι] in
/-- The condition on a publication, position by position. -/
theorem evenlyBroken_iff {s : Shared σ V E ι} {i : ι} {result : Result V E} :
    EvenlyBroken M s (.handled i result) ↔ (s.task.finished = false →
      ∀ k : Fin s.task.subscribers.length, s.task.streams[s.task.subscribers[k]]?.any
        M.live = true → Even (Task.goneBefore (s.task.broken M) (s.task.subscribers.take k))) := by
  constructor
  · intro h hfin k hlive
    cases hstream : s.task.streams[s.task.subscribers[k]]? with
    | none =>
      rw [hstream] at hlive
      cases hlive
    | some stream =>
      rw [hstream, Option.any_some] at hlive
      refine h hfin _ (s.task.subscribers.drop (k + 1)) _ stream ?_ hstream hlive
      simp
  · intro h hfin pre post id stream hsubs hstream hlive
    have hlt : pre.length < s.task.subscribers.length := by simp [hsubs]
    have hk := h hfin ⟨pre.length, hlt⟩ (by simp [hsubs, hstream, hlive])
    simpa [hsubs] using hk

instance (s : Shared σ V E ι) (e : SharedEvent V E ι) : Decidable (EvenlyBroken M s e) :=
  match e with
  | .handled _ _ => decidable_of_iff' _ evenlyBroken_iff
  | .enter _ => .isTrue trivial
  | .abandon _ => .isTrue trivial
  | .fire _ => .isTrue trivial
  | .cancelled _ => .isTrue trivial
  | .exit _ => .isTrue trivial
  | .subscribe _ => .isTrue trivial
  | .receive _ => .isTrue trivial
  | .closeReceive _ => .isTrue trivial

/-- The first of two subscribers goes before a result is published. -/
def firstGoes : List (SharedEvent Nat String (Fin 1)) :=
  [.subscribe none, .subscribe none, .enter 0, .closeReceive 0, .fire 0, .handled 0 (.ok 7)]

/-- The second subscriber, with its receiver there and room in its buffer, does not get the
result. -/
theorem result_skipped :
    ∃ s : Shared (Deque (Result Nat String)) Nat String (Fin 1),
      (lts Deque.streams).exec initial firstGoes = some s ∧ s.task.finished = false ∧
        s.due 1 = [.ok 7] ∧ s.task.streams[1]?.map Deque.streams.accepted = some [] ∧
          ¬ Delivers Deque.streams s := by
  refine ⟨_, rfl, rfl, rfl, rfl, fun h => ?_⟩
  exact absurd (h rfl 1 _ rfl rfl).1 (by decide)

/-- Three subscribers, of which the first two go. -/
def firstTwoGo : List (SharedEvent Nat String (Fin 1)) :=
  [.subscribe none, .subscribe (some 1), .subscribe (some 1), .enter 0, .fire 0, .handled 0 (.ok 7),
    .closeReceive 0, .closeReceive 1, .receive 2, .fire 0, .handled 0 (.failure "oops"), .receive 2,
    .exit 0]

theorem fan_out_iff_firstTwoGo :
    (lts Deque.streams).Throughout (Delivers Deque.streams) initial firstTwoGo := by
  apply (fan_out_iff Deque.documented rfl).2
  decide

end Shared

end LocalPost.Scheduler
