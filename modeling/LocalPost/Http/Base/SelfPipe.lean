import LocalPost.Core.Lts

/-!
# The operation queue and the self-pipe

A producer appends an operation and then writes a byte to the pipe; a write to a full pipe fails and
changes nothing (`BlockingIOError`). `Selector.run` drains the queue, blocks in `select`, and runs
the callbacks of the descriptors that are ready; the callback of the pipe reads until the pipe is
empty and drains the queue again. Each `popleft`, each `read` of at most 4096 bytes and each
callback is a step, and producers step in between. What the callbacks of connections append is a
producer's step too.

`posted` and `drained` are ghost fields: the operations in the order of their appends and of their
`popleft`. The operations themselves are of any type.

While the selector is blocked an operation in the queue has a byte in the pipe or a producer on its
way to its write (`Attended`): the drain before `select` saw the queue empty, and no byte is read
without a drain after it.
-/

set_option autoImplicit false

namespace LocalPost.Http.Base

open LocalPost.Core

universe u

/-- A descriptor that `select` reports: the pipe, or a connection or listen socket. -/
inductive Ready where
  | wakeup
  | other
  deriving DecidableEq, Repr

/-- Where the loop stands: inside the drain at the top of `run`, inside `select`, before the next
callback of the list, inside `_drain_wakeup`, inside the drain after it. -/
inductive LoopPc where
  | top
  | selecting
  | callbacks (ready : List Ready)
  | reading (ready : List Ready)
  | draining (ready : List Ready)
  deriving DecidableEq, Repr

/-- The queue, the unread bytes of the pipe, the number of producers between their append and their
write, and the loop. -/
structure SelfPipe (τ : Type u) where
  ops : List τ
  pipe : Nat
  waking : Nat
  loop : LoopPc
  posted : List τ
  drained : List τ
  deriving DecidableEq, Repr

/-- One step: a producer's append or its `_wake`; the loop's `popleft` (which ends the drain when
the queue is empty), the return of `select`, the next callback or the end of `run`, an `os.read`. -/
inductive PipeAct (τ : Type u) where
  | append (op : τ)
  | wake
  | popleft
  | select (ready : List Ready)
  | callback
  | read
  deriving DecidableEq, Repr

namespace SelfPipe

variable {τ : Type u}

/-- A new selector. -/
def start : SelfPipe τ := ⟨[], 0, 0, .top, [], []⟩

/-- What `os.read(fd, 4096)` takes at most. -/
def readSize : Nat := 4096

/-- Where the loop goes on after the drain it is in. -/
def afterDrain : LoopPc → Option LoopPc
  | .top => some .selecting
  | .draining ready => some (.callbacks ready)
  | _ => none

/-- One round of the loop in `_drain_ops`. -/
def popleft (s : SelfPipe τ) : Option (SelfPipe τ) :=
  match afterDrain s.loop, s.ops with
  | none, _ => none
  | some next, [] => some { s with loop := next }
  | some _, op :: rest => some { s with ops := rest, drained := s.drained ++ [op] }

/-- One step with a pipe that holds `cap` bytes. `select` is level-triggered: it reports the pipe,
once, exactly when there is something to read. It may report nothing after its timeout. -/
def step (cap : Nat) (s : SelfPipe τ) : PipeAct τ → Option (SelfPipe τ)
  | .append op =>
    some { s with ops := s.ops ++ [op], posted := s.posted ++ [op], waking := s.waking + 1 }
  | .wake =>
    if 0 < s.waking then
      some { s with waking := s.waking - 1, pipe := if s.pipe < cap then s.pipe + 1 else s.pipe }
    else none
  | .popleft => s.popleft
  | .select ready =>
    if s.loop = .selecting ∧ ready.count .wakeup = (if 0 < s.pipe then 1 else 0) then
      some { s with loop := .callbacks ready }
    else none
  | .callback =>
    match s.loop with
    | .callbacks [] => some { s with loop := .top }
    | .callbacks (.wakeup :: ready) => some { s with loop := .reading ready }
    | .callbacks (.other :: ready) => some { s with loop := .callbacks ready }
    | _ => none
  | .read =>
    match s.loop with
    | .reading ready =>
      if s.pipe = 0 then some { s with loop := .draining ready }
      else some { s with pipe := s.pipe - readSize }
    | _ => none

end SelfPipe

/-- A selector loop with any number of producers. -/
def pipeSystem (τ : Type u) (cap : Nat) : Lts (SelfPipe τ) (PipeAct τ) where
  init s := s = .start
  step := SelfPipe.step cap

namespace SelfPipe

variable {τ : Type u} {cap : Nat} {s s' : SelfPipe τ}

/-- The loop takes the step by itself, and not because a timeout has passed. -/
def unprompted : PipeAct τ → Bool
  | .append _ => false
  | .wake => false
  | .select ready => ready ≠ []
  | _ => true

/-- No wake-up is lost: a blocked selector with an operation in its queue has something to read, or
will have. -/
def Attended (s : SelfPipe τ) : Prop :=
  s.loop = .selecting → s.ops ≠ [] → 0 < s.pipe ∨ 0 < s.waking

/-- The loop empties the queue by itself, without a timeout and without a producer's help. -/
def Drains (cap : Nat) (s : SelfPipe τ) : Prop :=
  ∃ as t, (pipeSystem τ cap).exec s as = some t ∧ as.all unprompted = true ∧ t.ops = [] ∧
    t.drained = s.posted

/-! ## The invariant -/

/-- Attended, and what was posted is what was drained followed by what is queued. -/
structure Ok (s : SelfPipe τ) : Prop where
  attended : s.Attended
  fifo : s.drained ++ s.ops = s.posted

theorem ok_start : Ok (start : SelfPipe τ) where
  attended h := by cases h
  fifo := rfl

theorem Ok.append (hi : Ok s) (op : τ) :
    Ok { s with ops := s.ops ++ [op], posted := s.posted ++ [op], waking := s.waking + 1 } where
  attended _ _ := .inr (Nat.succ_pos _)
  fifo := by rw [← List.append_assoc, hi.fifo]

/-- The write adds a byte, or finds one. -/
theorem Ok.wake (hi : Ok s) (hcap : 0 < cap) :
    Ok { s with waking := s.waking - 1, pipe := if s.pipe < cap then s.pipe + 1 else s.pipe } where
  attended _ _ := by
    refine .inl ?_
    dsimp only
    split
    · exact Nat.succ_pos _
    · rename_i hfull
      exact Nat.lt_of_lt_of_le hcap (Nat.le_of_not_lt hfull)
  fifo := hi.fifo

/-- Taking the oldest operation keeps the rest in order. -/
theorem Ok.popleft (hi : Ok s) (h : s.popleft = some s') : Ok s' := by
  unfold SelfPipe.popleft at h
  split at h
  · cases h
  · rename_i next hnext hops
    cases h
    -- The drain ends with the queue empty, so nothing is waiting at `select`.
    exact ⟨fun _ hne => absurd hops hne, hi.fifo⟩
  · rename_i next op rest hnext hops
    cases h
    refine ⟨fun hsel _ => ?_, ?_⟩
    · rw [show s.loop = .selecting from hsel] at hnext
      cases hnext
    · rw [List.append_assoc, List.singleton_append, ← hops]
      exact hi.fifo

/-- A step that leaves the queue alone and does not go to `select`. -/
theorem Ok.elsewhere (hi : Ok s) {pipe : Nat} {loop : LoopPc} (hloop : loop ≠ .selecting) :
    Ok { s with pipe := pipe, loop := loop } :=
  ⟨fun h => absurd h hloop, hi.fifo⟩

/-- What is queued stays in its order, and attended. -/
theorem Ok.step (hi : Ok s) (hcap : 0 < cap) {a : PipeAct τ} (h : s.step cap a = some s') :
    Ok s' := by
  -- Only an append, a wake-up and a `popleft` touch what the invariant counts.
  cases a with
  | append op =>
    cases h
    exact hi.append op
  | wake =>
    obtain ⟨-, ⟨⟩⟩ := Option.ite_none_right_eq_some.1 h
    exact hi.wake hcap
  | popleft => exact hi.popleft h
  | select ready =>
    obtain ⟨-, ⟨⟩⟩ := Option.ite_none_right_eq_some.1 h
    exact hi.elsewhere (by simp)
  | callback =>
    simp only [SelfPipe.step] at h
    -- each of the callback's places leads away from `select`
    split at h
    · cases h
      exact hi.elsewhere (by simp)
    · cases h
      exact hi.elsewhere (by simp)
    · cases h
      exact hi.elsewhere (by simp)
    · cases h
  | read =>
    simp only [SelfPipe.step] at h
    split at h
    · rename_i ready hloop
      split at h
      · cases h
        exact hi.elsewhere (by simp)
      · cases h
        have hne : s.loop ≠ .selecting := by simp [hloop]
        exact hi.elsewhere hne
    · cases h

/-! ## Draining -/

/-- One step of the loop, and then the rest. -/
theorem Drains.cons {a : PipeAct τ} (ha : unprompted a = true)
    (h : (pipeSystem τ cap).step s a = some s') (hposted : s'.posted = s.posted)
    (hrest : s'.Drains cap) : s.Drains cap := by
  obtain ⟨as, t, hrun, hall, hnil, hdrained⟩ := hrest
  refine ⟨a :: as, t, (Lts.exec_cons _).2 ⟨s', h, hrun⟩, ?_, hnil, hdrained.trans hposted⟩
  rw [List.all_cons, ha, hall]
  rfl

theorem Drains.of_nil (hi : Ok s) (hops : s.ops = []) : s.Drains cap := by
  refine ⟨[], s, rfl, rfl, hops, ?_⟩
  have hfifo := hi.fifo
  rwa [hops, List.append_nil] at hfifo

/-- Inside a drain, by induction on the queue. -/
theorem drains_popleft (hi : Ok s) (hloop : (afterDrain s.loop).isSome) : s.Drains cap := by
  induction hops : s.ops generalizing s with
  | nil => exact .of_nil hi hops
  | cons op rest ih =>
    obtain ⟨next, hnext⟩ := Option.isSome_iff_exists.1 hloop
    have hstep : s.popleft = some { s with ops := rest, drained := s.drained ++ [op] } := by
      simp only [SelfPipe.popleft, hnext, hops]
    exact .cons (a := .popleft) rfl hstep rfl (ih (hi.popleft hstep) hloop rfl)

/-- Inside `_drain_wakeup`: the reads end, by induction on the bytes, and a drain follows. -/
theorem drains_reading (hi : Ok s) {ready : List Ready} (hloop : s.loop = .reading ready) :
    s.Drains cap := by
  induction hpipe : s.pipe using Nat.strongRecOn generalizing s with
  | ind n ih =>
    by_cases hzero : s.pipe = 0
    · have hstep : (pipeSystem τ cap).step s .read = some { s with loop := .draining ready } := by
        simp only [pipeSystem, SelfPipe.step, hloop, if_pos hzero]
      exact .cons rfl hstep rfl (drains_popleft (hi.elsewhere (by simp)) rfl)
    · have hstep : (pipeSystem τ cap).step s .read =
          some { s with pipe := s.pipe - readSize } := by
        simp only [pipeSystem, SelfPipe.step, hloop, if_neg hzero]
      have hne : s.loop ≠ .selecting := by simp [hloop]
      have hlt : s.pipe - readSize < n := by
        rw [← hpipe]
        exact Nat.sub_lt (Nat.pos_of_ne_zero hzero) (by decide)
      exact .cons rfl hstep rfl (ih _ hlt (hi.elsewhere hne) hloop rfl)

/-- Among the callbacks: either the callback of the pipe or the next `run` drains the queue. -/
theorem drains_callbacks (hi : Ok s) {ready : List Ready} (hloop : s.loop = .callbacks ready) :
    s.Drains cap := by
  induction ready generalizing s with
  | nil =>
    have hstep : (pipeSystem τ cap).step s .callback = some { s with loop := .top } := by
      simp only [pipeSystem, SelfPipe.step, hloop]
    exact .cons rfl hstep rfl (drains_popleft (hi.elsewhere (by simp)) rfl)
  | cons r ready ih =>
    cases r with
    | wakeup =>
      have hstep : (pipeSystem τ cap).step s .callback =
          some { s with loop := .reading ready } := by
        simp only [pipeSystem, SelfPipe.step, hloop]
      exact .cons rfl hstep rfl (drains_reading (hi.elsewhere (by simp)) rfl)
    | other =>
      have hstep : (pipeSystem τ cap).step s .callback =
          some { s with loop := .callbacks ready } := by
        simp only [pipeSystem, SelfPipe.step, hloop]
      exact .cons rfl hstep rfl (ih (hi.elsewhere (by simp)) rfl)

/-- Where no producer is at work, the loop empties the queue by itself. -/
theorem Ok.drains (hi : Ok s) (hwaking : s.waking = 0) : s.Drains cap := by
  cases hloop : s.loop with
  | top => exact drains_popleft hi (by rw [hloop]; rfl)
  | selecting =>
    by_cases hops : s.ops = []
    · exact .of_nil hi hops
    · -- Nobody is on the way to a write, so there is a byte, and `select` reports it.
      have hpipe : 0 < s.pipe := (hi.attended hloop hops).resolve_right (by omega)
      have hstep : (pipeSystem τ cap).step s (.select [.wakeup]) =
          some { s with loop := .callbacks [.wakeup] } := by
        simp only [pipeSystem, SelfPipe.step]
        rw [if_pos ⟨hloop, by rw [if_pos hpipe]; rfl⟩]
      exact .cons rfl hstep rfl (drains_callbacks (hi.elsewhere (by simp)) rfl)
  | callbacks ready => exact drains_callbacks hi hloop
  | reading ready => exact drains_reading hi hloop
  | draining ready => exact drains_popleft hi (by rw [hloop]; rfl)

end SelfPipe

/-! ## Runs -/

/-- In every run of the loop with any number of producers: a blocked selector with an operation in
its queue has a byte to read or a producer on its way to its write; the operations are drained once
each, in the order of their appends; and as soon as no producer is on its way the loop drains the
queue by itself, without waiting for a timeout. -/
theorem no_lost_wakeup {τ : Type u} {cap : Nat} (hcap : 0 < cap) {s : SelfPipe τ}
    {as : List (PipeAct τ)} (hrun : (pipeSystem τ cap).exec .start as = some s) :
    s.Attended ∧ s.drained ++ s.ops = s.posted ∧ (s.waking = 0 → s.Drains cap) := by
  have hok : s.Ok := Lts.exec_invariant (I := SelfPipe.Ok)
    (fun _ _ _ hi hstep => hi.step hcap hstep) SelfPipe.ok_start hrun
  exact ⟨hok.attended, hok.fifo, hok.drains⟩

/-- Three producers and a pipe of two bytes. The third write fails; one read takes both bytes,
another operation is appended between the read and the drain, and its byte comes after the drain. -/
def fullPipe : List (PipeAct Nat) :=
  [.popleft, .append 1, .append 2, .wake, .append 3, .wake, .wake, .select [.other, .wakeup],
    .callback, .callback, .read, .append 4, .read, .popleft, .popleft, .popleft, .popleft, .popleft,
    .wake, .append 5, .callback, .popleft, .popleft]

theorem no_lost_wakeup_fullPipe :
    ∃ s, (pipeSystem Nat 2).exec .start fullPipe = some s ∧ s.loop = .selecting ∧ s.pipe = 1 ∧
      s.drained = [1, 2, 3, 4, 5] ∧
      s.Attended ∧ s.drained ++ s.ops = s.posted ∧ (s.waking = 0 → s.Drains 2) := by
  have hrun : (pipeSystem Nat 2).exec .start fullPipe =
      some ⟨[], 1, 1, .selecting, [1, 2, 3, 4, 5], [1, 2, 3, 4, 5]⟩ := by decide +kernel
  exact ⟨_, hrun, rfl, rfl, rfl, no_lost_wakeup (by decide) hrun⟩

end LocalPost.Http.Base
