import LocalPost.Threadtools.Channel.System

/-!
# What a step of the channel can do

`Inv` ties the shared state to the handles and to the control points: the open-channel counters
count the unclosed handles, a queue holds exactly threads that sleep on it through an open handle,
and nobody sleeps once one side is gone. Under `Inv` the broadcast in `__exit__` wakes nobody, so a
step is one of the twelve moves of `Move` (`step_move`); the invariants of the later files are
proved by cases on the move.
-/

set_option autoImplicit false

namespace LocalPost.Threadtools.Channel

open LocalPost.Core

universe u

variable {T : Type u}

/-- A control point that is not inside `wait`. -/
def Pc.awake : Pc T → Bool
  | .putting _ _ asleep => !asleep
  | .getting _ asleep => !asleep
  | .idle => true

/-- Thread `t` is inside `not_full.wait`, through a handle that is not closed. -/
def SleepsInPut (pc : Nat → Pc T) (senders : List Bool) (t : Nat) : Prop :=
  ∃ c phase, pc t = .putting c phase true ∧ senders.getD c.handle true = false

/-- Thread `t` is inside `not_empty.wait`, through a handle that is not closed. -/
def SleepsInGet (pc : Nat → Pc T) (receivers : List Bool) (t : Nat) : Prop :=
  ∃ c, pc t = .getting c true ∧ receivers.getD c.handle true = false

/-- Thread `t` is in a blocking `put`. -/
def InPut (pc : Nat → Pc T) (t : Nat) : Prop := ∃ c phase asleep, pc t = .putting c phase asleep

/-- Thread `t` is in a blocking `get`. -/
def InGet (pc : Nat → Pc T) (t : Nat) : Prop := ∃ c asleep, pc t = .getting c asleep

/-- The shared state, the handles and the control points fit together. -/
structure Inv (s : Sys T) : Prop where
  openSend : s.chan.openSendChannels = (s.senders.count false : Int)
  openReceive : s.chan.openReceiveChannels = (s.receivers.count false : Int)
  nobody : s.chan.openSendChannels = 0 ∨ s.chan.openReceiveChannels = 0 →
    s.chan.notEmpty.waiters = [] ∧ s.chan.notFull.waiters = []
  full : s.chan.notFull.Holds (SleepsInPut s.pc s.senders) (InPut s.pc)
  empty : s.chan.notEmpty.Holds (SleepsInGet s.pc s.receivers) (InGet s.pc)

/-- The test of a blocking `put` failed: its phase has to wait. -/
def ChannelState.Waits (st : ChannelState T) : Phase → Prop
  | .space => st.canPut = .ok false
  | .handoff myTarget => st.itemsConsumed < myTarget ∧ st.openReceiveChannels ≠ 0

theorem ChannelState.Waits.receivers {st : ChannelState T} {phase : Phase} (h : st.Waits phase) :
    st.openReceiveChannels ≠ 0 := by
  cases phase with
  | space =>
    intro h0
    simp [Waits, canPut, h0] at h
  | handoff myTarget => exact h.2

/-- There is room for an item appended with the given claim. -/
def ChannelState.HasRoom (st : ChannelState T) (claim : Bool) : Prop :=
  match st.capacity with
  | none => claim = false
  | some 0 =>
    if claim then st.pendingHandoffs < st.waitingReceivers
    else st.buffer = [] ∧ st.waitingReceivers ≤ st.pendingHandoffs
  | some n => claim = false ∧ st.buffer.length < n

/-- The steps that neither touch the buffer nor fall asleep nor wake up: control point, number of
calls and events after it. -/
inductive Quiet (s : Sys T) (t : Nat) : Pc T → Nat → List (Event T) → Prop
  | beginPut (h item timeout d) :
      s.pc t = .idle → deadlineOf s.now timeout = .ok d →
      Quiet s t (.putting ⟨s.calls, h, item, d⟩ .space false) (s.calls + 1)
        [.began s.calls (.put h item timeout)]
  | beginGet (h timeout d) :
      s.pc t = .idle → deadlineOf s.now timeout = .ok d →
      Quiet s t (.getting ⟨s.calls, h, d⟩ false) (s.calls + 1)
        [.began s.calls (.get h timeout)]
  | refused (op e) :
      s.pc t = .idle → Quiet s t .idle (s.calls + 1) [.began s.calls op, .raised s.calls e]
  | closedAgain (h) :
      s.pc t = .idle →
      Quiet s t .idle (s.calls + 1) [.began s.calls (.closeSend h), .returned s.calls]
  | closedReceiveAgain (h) :
      s.pc t = .idle →
      Quiet s t .idle (s.calls + 1) [.began s.calls (.closeReceive h), .returned s.calls]
  | putRaised (c e) :
      s.pc t = .putting c .space false →
      s.senderClosed c.handle = true ∨ s.chan.canPut ≠ .ok true →
      Quiet s t .idle s.calls [.raised c.call e]
  | handoffClosed (c myTarget) :
      s.pc t = .putting c (.handoff myTarget) false → s.senderClosed c.handle = true →
      Quiet s t .idle s.calls [.raised c.call .sendClosed]
  | handoffTimeout (c myTarget) :
      s.pc t = .putting c (.handoff myTarget) false → s.chan.itemsConsumed < myTarget →
      s.chan.openReceiveChannels ≠ 0 → Quiet s t .idle s.calls [.raised c.call .timeout]
  | handoffReturned (c myTarget) :
      s.pc t = .putting c (.handoff myTarget) false → s.senderClosed c.handle = false →
      s.chan.itemsConsumed ≥ myTarget ∨ s.chan.openReceiveChannels = 0 →
      Quiet s t .idle s.calls [.returned c.call]
  | getRaised (c e) :
      s.pc t = .getting c false →
      s.receiverClosed c.handle = true ∨ s.chan.buffer = [] →
      Quiet s t .idle s.calls [.raised c.call e]

/-- The ways to append an item: claim, control point, number of calls and events after it. -/
inductive Pushes (s : Sys T) (t : Nat) : T → Bool → Pc T → Nat → List (Event T) → Prop
  | nowait (h item) :
      s.pc t = .idle → s.senderClosed h = false →
      Pushes s t item (s.chan.capacity = some 0) .idle (s.calls + 1)
        [.began s.calls (.putNowait h item), .appended s.calls item, .returned s.calls]
  | put (c) :
      s.pc t = .putting c .space false → s.senderClosed c.handle = false →
      s.chan.capacity ≠ some 0 →
      Pushes s t c.item false .idle s.calls [.appended c.call c.item, .returned c.call]
  | rendezvous (c) :
      s.pc t = .putting c .space false → s.senderClosed c.handle = false →
      s.chan.capacity = some 0 →
      Pushes s t c.item (decide (s.chan.waitingReceivers > s.chan.pendingHandoffs))
        (.putting c (.handoff (s.chan.itemsConsumed + (s.chan.buffer.length + 1 : Nat))) false)
        s.calls [.appended c.call c.item]

/-- The ways to remove an item: number of calls and events after it. -/
inductive Pulls (s : Sys T) (t : Nat) : T → Nat → List (Event T) → Prop
  | nowait (h item) :
      s.pc t = .idle → s.receiverClosed h = false →
      Pulls s t item (s.calls + 1)
        [.began s.calls (.getNowait h), .took s.calls item, .returned s.calls]
  | get (c item) :
      s.pc t = .getting c false → s.receiverClosed c.handle = false →
      Pulls s t item s.calls [.took c.call item, .returned c.call]

/-- The thread that removes an item from the buffer with this action, if the action does that. -/
def Sys.popper (s : Sys T) : Act T → Option Nat
  | .run t =>
    match s.pc t with
    | .getting c false =>
      if s.receiverClosed c.handle = false ∧ s.chan.buffer ≠ [] then some t else none
    | _ => none
  | .call t (.getNowait h) =>
    if s.receiverClosed h = false ∧ s.chan.buffer ≠ [] then some t else none
  | _ => none

/-- The moves of the system. The last argument of each is the thread that removes an
item, if one is removed. -/
inductive Move (s : Sys T) : Sys T → Option Nat → Prop
  | tick (d : Nat) : Move s { s with now := s.now + d } none
  -- A critical section, or a part of one, that leaves the buffer alone and puts nobody to sleep.
  | quiet (t pc calls evs) (h : Quiet s t pc calls evs) :
      Move s { s with
        chan := s.chan.enter t, pc := Function.update s.pc t pc
        calls := calls, log := s.log ++ evs } none
  -- `put_nowait`, or the part of `put` behind its wait: the item is appended.
  | push (t item claim pc calls evs) (h : Pushes s t item claim pc calls evs)
      (hopen : s.chan.openReceiveChannels ≠ 0) (hroom : s.chan.HasRoom claim) :
      Move s { s with
        chan := (s.chan.enter t).push item claim, pc := Function.update s.pc t pc
        calls := calls, log := s.log ++ evs } none
  | pull (t item rest calls evs) (h : Pulls s t item calls evs)
      (hbuf : s.chan.buffer = item :: rest) :
      Move s { s with
        chan := (s.chan.enter t).take rest, pc := Function.update s.pc t .idle
        calls := calls, log := s.log ++ evs } (some t)
  -- The predicate of the wait is false: the thread joins the queue and gives up the lock.
  | sleepSend (t c phase) (hpc : s.pc t = .putting c phase false)
      (hopen : s.senderClosed c.handle = false) (hwait : s.chan.Waits phase) :
      Move s { s with
        chan := { s.chan.enter t with notFull := (s.chan.enter t).notFull.wait t }
        pc := Function.update s.pc t (.putting c phase true) } none
  | sleepReceive (t c) (hpc : s.pc t = .getting c false)
      (hopen : s.receiverClosed c.handle = false) (hsend : s.chan.openSendChannels ≠ 0)
      (hbuf : s.chan.buffer = []) :
      Move s { s with
        chan := { s.chan.enter t with
          waitingReceivers := s.chan.waitingReceivers + 1
          notEmpty := (s.chan.enter t).notEmpty.wait t }
        pc := Function.update s.pc t (.getting c true) } none
  -- `Condition.wait` comes back, notified or timed out, and the predicate is checked again.
  | wakeSend (t c phase) (hpc : s.pc t = .putting c phase true) :
      Move s { s with
        chan := { s.chan with notFull := s.chan.notFull.drop t }
        pc := Function.update s.pc t (.putting c phase false) } none
  | wakeReceive (t c) (hpc : s.pc t = .getting c true) :
      Move s { s with
        chan := { s.chan with
          notEmpty := s.chan.notEmpty.drop t
          waitingReceivers := s.chan.waitingReceivers - 1 }
        pc := Function.update s.pc t (.getting c false) } none
  -- Each handle has its place in the list, and a clone gets the next one.
  | cloneSend (t h) (hpc : s.pc t = .idle) (hopen : s.senderClosed h = false) :
      Move s { s with
        chan := { s.chan with openSendChannels := s.chan.openSendChannels + 1 }
        senders := s.senders ++ [false], calls := s.calls + 1
        log := s.log ++ [.began s.calls (.cloneSend h), .returned s.calls] } none
  | cloneReceive (t h) (hpc : s.pc t = .idle) (hopen : s.receiverClosed h = false) :
      Move s { s with
        chan := { s.chan with openReceiveChannels := s.chan.openReceiveChannels + 1 }
        receivers := s.receivers ++ [false], calls := s.calls + 1
        log := s.log ++ [.began s.calls (.cloneReceive h), .returned s.calls] } none
  -- A close notifies the sleepers of both queues, whoever holds other handles.
  | closeSend (t h) (hpc : s.pc t = .idle) (hopen : s.senderClosed h = false) :
      Move s { s with
        chan := { s.chan with
          openSendChannels := s.chan.openSendChannels - 1
          notEmpty := s.chan.notEmpty.notifyAll
          notFull := s.chan.notFull.notifyAll }
        senders := s.senders.set h true, calls := s.calls + 1
        log := s.log ++ [.began s.calls (.closeSend h), .returned s.calls] } none
  | closeReceive (t h) (hpc : s.pc t = .idle) (hopen : s.receiverClosed h = false) :
      Move s { s with
        chan := { s.chan with
          openReceiveChannels := s.chan.openReceiveChannels - 1
          notEmpty := s.chan.notEmpty.notifyAll
          notFull := s.chan.notFull.notifyAll }
        receivers := s.receivers.set h true, calls := s.calls + 1
        log := s.log ++ [.began s.calls (.closeReceive h), .returned s.calls] } none

/-! ## Inversion of a step -/

section Inversion

variable {s s' : Sys T}

theorem getD_eq_false {l : List Bool} {h : Nat} (hl : l.getD h true = false) :
    l[h]? = some false := by
  rw [List.getD_eq_getElem?_getD] at hl
  cases hget : l[h]? with
  | none => simp [hget] at hl
  | some b => simpa [hget] using hl

theorem count_pos_of_getD {l : List Bool} {h : Nat} (hl : l.getD h true = false) :
    0 < l.count false :=
  List.count_pos_iff.2 (List.mem_of_getElem? (getD_eq_false hl))

/-- What `_can_put` has found when it says yes. -/
theorem canPut_true {st : ChannelState T} (h : st.canPut = .ok true) :
    st.openReceiveChannels ≠ 0 ∧ st.HasRoom st.claims := by
  unfold ChannelState.canPut at h
  split at h
  · simp at h
  · rename_i hopen
    refine ⟨hopen, ?_⟩
    unfold ChannelState.HasRoom ChannelState.claims
    split at h
    · rename_i hcap
      simp only [Except.ok.injEq, Bool.or_eq_true, decide_eq_true_eq, List.isEmpty_iff] at h
      simp only [hcap, decide_true, Bool.true_and, gt_iff_lt, decide_eq_true_eq]
      split
      · assumption
      · rename_i hle
        exact ⟨h.resolve_left hle, by omega⟩
    · rename_i hcap
      simp [hcap]
    · rename_i n hne hcap
      simp only [Except.ok.injEq, decide_eq_true_eq] at h
      have hn : n ≠ 0 := fun h0 => hne h0
      simp [hcap, hn, h]

/-- What `_can_put_nowait` has found when it says yes. -/
theorem canPutNowait_true {st : ChannelState T} (h : st.canPutNowait = .ok true) :
    st.openReceiveChannels ≠ 0 ∧ st.HasRoom (st.capacity = some 0) := by
  unfold ChannelState.canPutNowait at h
  split at h
  · simp at h
  · rename_i hopen
    refine ⟨hopen, ?_⟩
    unfold ChannelState.HasRoom
    split at h
    · rename_i hcap
      simp only [Except.ok.injEq, decide_eq_true_eq] at h
      simpa [hcap] using h
    · rename_i hcap
      simp [hcap]
    · rename_i n hne hcap
      simp only [Except.ok.injEq, decide_eq_true_eq] at h
      have hn : n ≠ 0 := fun h0 => hne h0
      simp [hcap, hn, h]

theorem SleepsInPut.inPut {pc : Nat → Pc T} {senders : List Bool} {t : Nat}
    (h : SleepsInPut pc senders t) : InPut pc t := by
  obtain ⟨c, phase, hpc, -⟩ := h
  exact ⟨c, phase, true, hpc⟩

theorem SleepsInGet.inGet {pc : Nat → Pc T} {receivers : List Bool} {t : Nat}
    (h : SleepsInGet pc receivers t) : InGet pc t := by
  obtain ⟨c, hpc, -⟩ := h
  exact ⟨c, true, hpc⟩

theorem Inv.not_mem_full (hi : Inv s) {t : Nat} (h : (s.pc t).awake = true) :
    t ∉ s.chan.notFull.waiters := by
  intro hmem
  obtain ⟨c, phase, hpc, -⟩ := hi.full.asleep t hmem
  simp [hpc, Pc.awake] at h

theorem Inv.not_mem_empty (hi : Inv s) {t : Nat} (h : (s.pc t).awake = true) :
    t ∉ s.chan.notEmpty.waiters := by
  intro hmem
  obtain ⟨c, hpc, -⟩ := hi.empty.asleep t hmem
  simp [hpc, Pc.awake] at h

theorem Inv.not_woken_of_idle (hi : Inv s) {t : Nat} (h : s.pc t = .idle) :
    t ∉ s.chan.notEmpty.woken ∧ t ∉ s.chan.notFull.woken := by
  constructor
  · intro hmem
    obtain ⟨c, asleep, hpc⟩ := hi.empty.onWay t hmem
    simp [hpc] at h
  · intro hmem
    obtain ⟨c, phase, asleep, hpc⟩ := hi.full.onWay t hmem
    simp [hpc] at h

/-- A thread that begins a call is on its way from no wait. -/
theorem Inv.enter_of_idle (hi : Inv s) {t : Nat} (h : s.pc t = .idle) :
    s.chan.enter t = s.chan := by
  obtain ⟨he, hf⟩ := hi.not_woken_of_idle h
  simp only [ChannelState.enter, Condition.recheck_of_not_mem he, Condition.recheck_of_not_mem hf]

/-- `__exit__` wakes nobody at the end of a block that leaves the open-channel counters alone and
puts nobody into an empty queue. -/
theorem Inv.exit_eq (hi : Inv s) {st : ChannelState T}
    (hs : st.openSendChannels = s.chan.openSendChannels)
    (hr : st.openReceiveChannels = s.chan.openReceiveChannels)
    (he : s.chan.notEmpty.waiters = [] → st.notEmpty.waiters = [])
    (hf : s.chan.notFull.waiters = [] → st.notFull.waiters = []) : st.exit = st := by
  by_cases h : s.chan.openSendChannels = 0 ∨ s.chan.openReceiveChannels = 0
  · obtain ⟨hne, hnf⟩ := hi.nobody h
    exact ChannelState.exit_of_nobody (he hne) (hf hnf)
  · rw [not_or] at h
    exact ChannelState.exit_of_open (by rw [hs]; exact h.1) (by rw [hr]; exact h.2)

theorem Inv.exit_enter (hi : Inv s) (t : Nat) : (s.chan.enter t).exit = s.chan.enter t :=
  hi.exit_eq rfl rfl (fun h => h) (fun h => h)

theorem Inv.exit_chan (hi : Inv s) : s.chan.exit = s.chan :=
  hi.exit_eq rfl rfl (fun h => h) (fun h => h)

theorem Inv.exit_push (hi : Inv s) (t : Nat) (item : T) (claim : Bool) :
    ((s.chan.enter t).push item claim).exit = (s.chan.enter t).push item claim :=
  hi.exit_eq rfl rfl (fun h => by simp [ChannelState.push, ChannelState.enter, h]) (fun h => h)

theorem Inv.exit_take (hi : Inv s) (t : Nat) (rest : List T) :
    ((s.chan.enter t).take rest).exit = (s.chan.enter t).take rest :=
  hi.exit_eq rfl rfl (fun h => h) (fun h => by simp [ChannelState.take, ChannelState.enter, h])

theorem Inv.wakeSender (hi : Inv s) (t : Nat) :
    s.chan.wakeSender t = { s.chan with notFull := s.chan.notFull.drop t } :=
  hi.exit_eq rfl rfl (fun h => h) (fun h => by simp [h])

theorem Inv.wakeReceiver (hi : Inv s) (t : Nat) :
    s.chan.wakeReceiver t =
      { s.chan with
        notEmpty := s.chan.notEmpty.drop t
        waitingReceivers := s.chan.waitingReceivers - 1 } :=
  hi.exit_eq rfl rfl (fun h => by simp [h]) (fun h => h)

theorem runPutSpace_move (hi : Inv s) {t : Nat} {c : PutCall T}
    (hpc : s.pc t = .putting c .space false) : Move s (s.runPutSpace t c) none := by
  unfold Sys.runPutSpace ChannelState.putSpace
  -- in the order of the code: the handle, then the buffer, then the deadline
  by_cases hclosed : s.senderClosed c.handle = true
  · rw [if_pos hclosed, hi.exit_enter]
    exact .quiet t _ _ _ (.putRaised c _ hpc (Or.inl hclosed))
  · rw [if_neg hclosed, ChannelState.enter_canPut]
    rw [Bool.not_eq_true] at hclosed
    cases hcan : s.chan.canPut with
    | error e =>
      rw [hi.exit_enter]
      exact .quiet t _ _ _ (.putRaised c _ hpc (Or.inr (by simp [hcan])))
    | ok b =>
      cases b with
      | true =>
        obtain ⟨hopen, hroom⟩ := canPut_true hcan
        rw [hi.exit_push]
        -- on a rendezvous the put goes on into the hand-off, and may claim a receiver
        by_cases hcap : s.chan.capacity = some 0
        · have htarget : (s.chan.enter t).target =
              s.chan.itemsConsumed + (s.chan.buffer.length + 1 : Nat) := by
            simp [ChannelState.target, ChannelState.enter, hcap]
          have hclaim : (s.chan.enter t).claims =
              decide (s.chan.waitingReceivers > s.chan.pendingHandoffs) := by
            simp [ChannelState.claims, ChannelState.enter, hcap]
          have hroom' : s.chan.HasRoom
              (decide (s.chan.waitingReceivers > s.chan.pendingHandoffs)) := by
            simpa [ChannelState.claims, hcap] using hroom
          simp only [hcap, if_true, htarget, hclaim]
          exact .push t _ _ _ _ _ (.rendezvous c hpc hclosed hcap) hopen hroom'
        · have hclaim : (s.chan.enter t).claims = false := by
            simp [ChannelState.claims, hcap]
          have hroom' : s.chan.HasRoom false := by
            simpa [ChannelState.claims, hcap] using hroom
          simp only [hcap, if_false, hclaim]
          exact .push t _ _ _ _ _ (.put c hpc hclosed hcap) hopen hroom'
      -- no room yet: the timeout is over, or the thread goes to sleep
      | false =>
        cases hlate : expired s.now c.deadline with
        | true =>
          simp only [if_true, hi.exit_enter]
          exact .quiet t _ _ _ (.putRaised c _ hpc (Or.inr (by simp [hcan])))
        | false =>
          have hmove := Move.sleepSend t c .space hpc hclosed hcan
          simpa [Sys.goto] using hmove

theorem runPutHandoff_move (hi : Inv s) {t : Nat} {c : PutCall T} {myTarget : Int}
    (hpc : s.pc t = .putting c (.handoff myTarget) false) :
    Move s (s.runPutHandoff t c myTarget) none := by
  unfold Sys.runPutHandoff ChannelState.putHandoff
  -- the handle, the target, the receivers, then the deadline
  by_cases hclosed : s.senderClosed c.handle = true
  · rw [if_pos hclosed, hi.exit_enter]
    exact .quiet t _ _ _ (.handoffClosed c _ hpc hclosed)
  · rw [if_neg hclosed]
    rw [Bool.not_eq_true] at hclosed
    by_cases hdone : (s.chan.enter t).itemsConsumed ≥ myTarget
    · rw [if_pos hdone, hi.exit_enter]
      exact .quiet t _ _ _ (.handoffReturned c _ hpc hclosed (Or.inl hdone))
    · rw [if_neg hdone]
      by_cases hrecv : (s.chan.enter t).openReceiveChannels = 0
      · rw [if_pos hrecv, hi.exit_enter]
        exact .quiet t _ _ _ (.handoffReturned c _ hpc hclosed (Or.inr hrecv))
      · rw [if_neg hrecv]
        have hlt : s.chan.itemsConsumed < myTarget := Int.not_le.1 hdone
        cases hlate : expired s.now c.deadline with
        | true =>
          simp only [if_true, hi.exit_enter]
          exact .quiet t _ _ _ (.handoffTimeout c _ hpc hlt hrecv)
        | false =>
          have hmove := Move.sleepSend t c (.handoff myTarget) hpc hclosed ⟨hlt, hrecv⟩
          simpa [Sys.goto] using hmove

/-- A turn of `get` is a move, and takes an item if there is one. -/
theorem runGet_move (hi : Inv s) {t : Nat} {c : GetCall} (hpc : s.pc t = .getting c false) :
    Move s (s.runGet t c)
      (if s.receiverClosed c.handle = false ∧ s.chan.buffer ≠ [] then some t else none) := by
  unfold Sys.runGet
  -- an own handle that is closed comes first, then an item, then the closing of the senders
  by_cases hclosed : s.receiverClosed c.handle = true
  · simp only [ChannelState.get, if_pos hclosed, hi.exit_enter]
    simp only [hclosed, Bool.true_eq_false, false_and, if_false]
    exact .quiet t _ _ _ (.getRaised c _ hpc (Or.inl hclosed))
  · rw [Bool.not_eq_true] at hclosed
    simp only [hclosed, true_and]
    cases hbuf : s.chan.buffer with
    | cons item rest =>
      have hbuf' : (s.chan.enter t).buffer = item :: rest := hbuf
      rw [ChannelState.get_cons hbuf', hi.exit_take]
      exact .pull t item rest _ _ (.get c item hpc hclosed) hbuf
    | nil =>
      -- nothing to take: closed for good, too late, or asleep
      have hbuf' : (s.chan.enter t).buffer = [] := hbuf
      rw [ChannelState.get_nil hbuf']
      by_cases hsend : (s.chan.enter t).openSendChannels = 0
      · simp only [if_pos hsend, hi.exit_enter]
        exact .quiet t _ _ _ (.getRaised c _ hpc (Or.inr hbuf))
      · simp only [if_neg hsend]
        cases hlate : expired s.now c.deadline with
        | true =>
          simp only [if_true, hi.exit_enter]
          exact .quiet t _ _ _ (.getRaised c _ hpc (Or.inr hbuf))
        | false =>
          have hmove := Move.sleepReceive t c hpc hclosed hsend hbuf
          simpa [Sys.goto] using hmove

/-- A turn of a thread that was woken is a move. -/
theorem run_move (hi : Inv s) {t : Nat} (h : s.run t = some s') :
    Move s s' (s.popper (.run t)) := by
  unfold Sys.run at h
  cases hpc : s.pc t with
  | idle => simp [hpc] at h
  | putting c phase asleep =>
    have hpopper : s.popper (.run t) = none := by simp [Sys.popper, hpc]
    rw [hpopper]
    -- awake it goes on with its phase, asleep it can only wake up
    cases asleep with
    | false =>
      cases phase with
      | space =>
        simp only [hpc, Option.some.injEq] at h
        subst h
        exact runPutSpace_move hi hpc
      | handoff myTarget =>
        simp only [hpc, Option.some.injEq] at h
        subst h
        exact runPutHandoff_move hi hpc
    | true =>
      simp only [hpc, hi.wakeSender] at h
      split at h
      · cases h
        have hmove := Move.wakeSend t c phase hpc
        simpa [Sys.goto] using hmove
      · cases h
  | getting c asleep =>
    cases asleep with
    | false =>
      have hpopper : s.popper (.run t) =
          if s.receiverClosed c.handle = false ∧ s.chan.buffer ≠ [] then some t else none := by
        simp [Sys.popper, hpc]
      simp only [hpc, Option.some.injEq] at h
      subst h
      rw [hpopper]
      exact runGet_move hi hpc
    | true =>
      have hpopper : s.popper (.run t) = none := by simp [Sys.popper, hpc]
      rw [hpopper]
      simp only [hpc, hi.wakeReceiver] at h
      split at h
      · cases h
        have hmove := Move.wakeReceive t c hpc
        simpa [Sys.goto] using hmove
      · cases h

theorem update_idle {t : Nat} (hpc : s.pc t = .idle) : Function.update s.pc t .idle = s.pc := by
  rw [← hpc, Function.update_eq_self]

/-- A call that raises or returns at once, without an effect on the channel. -/
theorem Move.refuse (hi : Inv s) {t : Nat} {op : Op T} {ev : Event T} (hpc : s.pc t = .idle)
    (h : Quiet s t .idle (s.calls + 1) [.began s.calls op, ev]) :
    Move s { s with
      pc := Function.update s.pc t .idle, calls := s.calls + 1
      log := s.log ++ [.began s.calls op] ++ [ev] } none := by
  have hmove := Move.quiet t _ _ _ h
  rw [hi.enter_of_idle hpc] at hmove
  simpa using hmove

theorem begin_putNowait_move (hi : Inv s) {t h : Nat} {item : T} (hpc : s.pc t = .idle)
    (hb : s.begin t (.putNowait h item) = some s') : Move s s' none := by
  simp only [Sys.begin, hi.enter_of_idle hpc, ChannelState.putNowait] at hb
  split at hb
  · cases hb
  · cases hclosed : s.senders.getD h true with
    | true =>
      simp only [Sys.senderClosed, hclosed, if_true, hi.exit_chan, Option.some.injEq] at hb
      subst hb
      exact .refuse hi hpc (.refused _ _ hpc)
    | false =>
      simp only [Sys.senderClosed, hclosed, Bool.false_eq_true, if_false] at hb
      -- no receiver is left, or no room, or the item is appended
      cases hcan : s.chan.canPutNowait with
      | error e =>
        simp only [hcan, hi.exit_chan, Option.some.injEq] at hb
        subst hb
        exact .refuse hi hpc (.refused _ _ hpc)
      | ok b =>
        cases b with
        | false =>
          simp only [hcan, hi.exit_chan, Option.some.injEq] at hb
          subst hb
          exact .refuse hi hpc (.refused _ _ hpc)
        | true =>
          obtain ⟨hopen, hroom⟩ := canPutNowait_true hcan
          have hpush := hi.exit_push t item (s.chan.capacity = some 0)
          rw [hi.enter_of_idle hpc] at hpush
          simp only [hcan, hpush, Option.some.injEq] at hb
          subst hb
          have hmove := Move.push t item _ _ _ _ (.nowait h item hpc hclosed) hopen hroom
          rw [hi.enter_of_idle hpc] at hmove
          simpa [Sys.goto] using hmove

theorem begin_getNowait_move (hi : Inv s) {t h : Nat} (hpc : s.pc t = .idle)
    (hb : s.begin t (.getNowait h) = some s') :
    Move s s'
      (if s.receiverClosed h = false ∧ s.chan.buffer ≠ [] then some t else none) := by
  simp only [Sys.begin, hi.enter_of_idle hpc] at hb
  split at hb
  · cases hb
  · cases hclosed : s.receivers.getD h true with
    | true =>
      simp only [Sys.receiverClosed, hclosed, ChannelState.getNowait, if_true, hi.exit_chan,
        Option.some.injEq] at hb
      subst hb
      simp only [Sys.receiverClosed, hclosed, Bool.true_eq_false, false_and, if_false]
      exact .refuse hi hpc (.refused _ _ hpc)
    | false =>
      simp only [Sys.receiverClosed, hclosed, true_and] at hb ⊢
      -- an item is taken at once, or the call is refused
      cases hbuf : s.chan.buffer with
      | cons item rest =>
        have htake := hi.exit_take t rest
        rw [hi.enter_of_idle hpc] at htake
        simp only [ChannelState.getNowait_cons hbuf, htake, Option.some.injEq] at hb
        subst hb
        have hmove := Move.pull t item rest _ _ (.nowait h item hpc hclosed) hbuf
        rw [hi.enter_of_idle hpc] at hmove
        simpa [Sys.goto] using hmove
      | nil =>
        by_cases hsend : s.chan.openSendChannels = 0
        · simp only [ChannelState.getNowait_nil hbuf, if_pos hsend, hi.exit_chan,
            Option.some.injEq] at hb
          subst hb
          exact .refuse hi hpc (.refused _ _ hpc)
        · simp only [ChannelState.getNowait_nil hbuf, if_neg hsend, hi.exit_chan,
            Option.some.injEq] at hb
          subst hb
          exact .refuse hi hpc (.refused _ _ hpc)

theorem begin_put_move (hi : Inv s) {t h : Nat} {item : T} {timeout : Option Int}
    (hpc : s.pc t = .idle) (hb : s.begin t (.put h item timeout) = some s') :
    Move s s' none := by
  simp only [Sys.begin] at hb
  split at hb
  · cases hb
  · cases hd : deadlineOf s.now timeout with
    | error e =>
      simp only [hd, Option.some.injEq] at hb
      subst hb
      exact .refuse hi hpc (.refused _ _ hpc)
    | ok d =>
      simp only [hd, Option.some.injEq] at hb
      subst hb
      have hmove := Move.quiet t _ _ _ (.beginPut h item timeout d hpc hd)
      rw [hi.enter_of_idle hpc] at hmove
      simpa [Sys.goto] using hmove

theorem begin_get_move (hi : Inv s) {t h : Nat} {timeout : Option Int}
    (hpc : s.pc t = .idle) (hb : s.begin t (.get h timeout) = some s') : Move s s' none := by
  simp only [Sys.begin] at hb
  split at hb
  · cases hb
  · cases hd : deadlineOf s.now timeout with
    | error e =>
      simp only [hd, Option.some.injEq] at hb
      subst hb
      exact .refuse hi hpc (.refused _ _ hpc)
    | ok d =>
      simp only [hd, Option.some.injEq] at hb
      subst hb
      have hmove := Move.quiet t _ _ _ (.beginGet h timeout d hpc hd)
      rw [hi.enter_of_idle hpc] at hmove
      simpa [Sys.goto] using hmove

/-- A clone only adds to a counter: `__exit__` still wakes nobody. -/
theorem Inv.cloneSend (hi : Inv s) {h : Nat} (hopen : s.senderClosed h = false) :
    s.chan.cloneSend =
      { s.chan with openSendChannels := s.chan.openSendChannels + 1 } := by
  have hpos : 0 < s.senders.count false := count_pos_of_getD hopen
  have hcount := hi.openSend
  by_cases hr : s.chan.openReceiveChannels = 0
  · obtain ⟨he, hf⟩ := hi.nobody (Or.inr hr)
    exact ChannelState.exit_of_nobody he hf
  · exact ChannelState.exit_of_open (by simp only; omega) hr

theorem Inv.cloneReceive (hi : Inv s) {h : Nat} (hopen : s.receiverClosed h = false) :
    s.chan.cloneReceive =
      { s.chan with openReceiveChannels := s.chan.openReceiveChannels + 1 } := by
  have hpos : 0 < s.receivers.count false := count_pos_of_getD hopen
  have hcount := hi.openReceive
  by_cases hs : s.chan.openSendChannels = 0
  · obtain ⟨he, hf⟩ := hi.nobody (Or.inl hs)
    exact ChannelState.exit_of_nobody he hf
  · exact ChannelState.exit_of_open hs (by simp only; omega)

theorem begin_cloneSend_move (hi : Inv s) {t h : Nat} (hpc : s.pc t = .idle)
    (hb : s.begin t (.cloneSend h) = some s') : Move s s' none := by
  simp only [Sys.begin, hi.enter_of_idle hpc] at hb
  split at hb
  · cases hb
  · cases hclosed : s.senders.getD h true with
    | true =>
      simp only [Sys.senderClosed, hclosed, if_true, hi.exit_chan, Option.some.injEq] at hb
      subst hb
      exact .refuse hi hpc (.refused _ _ hpc)
    | false =>
      simp only [Sys.senderClosed, hclosed, Bool.false_eq_true, if_false, hi.cloneSend hclosed,
        Option.some.injEq] at hb
      subst hb
      have hmove := Move.cloneSend t h hpc hclosed
      simpa [Sys.goto, update_idle hpc] using hmove

theorem begin_cloneReceive_move (hi : Inv s) {t h : Nat} (hpc : s.pc t = .idle)
    (hb : s.begin t (.cloneReceive h) = some s') : Move s s' none := by
  simp only [Sys.begin, hi.enter_of_idle hpc] at hb
  split at hb
  · cases hb
  · cases hclosed : s.receivers.getD h true with
    | true =>
      simp only [Sys.receiverClosed, hclosed, if_true, hi.exit_chan, Option.some.injEq] at hb
      subst hb
      exact .refuse hi hpc (.refused _ _ hpc)
    | false =>
      simp only [Sys.receiverClosed, hclosed, Bool.false_eq_true, if_false,
        hi.cloneReceive hclosed, Option.some.injEq] at hb
      subst hb
      have hmove := Move.cloneReceive t h hpc hclosed
      simpa [Sys.goto, update_idle hpc] using hmove

theorem begin_closeSend_move (hi : Inv s) {t h : Nat} (hpc : s.pc t = .idle)
    (hb : s.begin t (.closeSend h) = some s') : Move s s' none := by
  simp only [Sys.begin, hi.enter_of_idle hpc] at hb
  split at hb
  · cases hb
  · cases hclosed : s.senders.getD h true with
    | true =>
      simp only [Sys.senderClosed, hclosed, if_true, hi.exit_chan, Option.some.injEq] at hb
      subst hb
      exact .refuse hi hpc (.closedAgain _ hpc)
    | false =>
      have hclose : s.chan.closeSend =
          { s.chan with
            openSendChannels := s.chan.openSendChannels - 1
            notEmpty := s.chan.notEmpty.notifyAll
            notFull := s.chan.notFull.notifyAll } := ChannelState.exit_of_nobody rfl rfl
      simp only [Sys.senderClosed, hclosed, Bool.false_eq_true, if_false, hclose,
        Option.some.injEq] at hb
      subst hb
      have hmove := Move.closeSend t h hpc hclosed
      simpa [Sys.goto, update_idle hpc] using hmove

theorem begin_closeReceive_move (hi : Inv s) {t h : Nat} (hpc : s.pc t = .idle)
    (hb : s.begin t (.closeReceive h) = some s') : Move s s' none := by
  simp only [Sys.begin, hi.enter_of_idle hpc] at hb
  split at hb
  · cases hb
  · cases hclosed : s.receivers.getD h true with
    | true =>
      simp only [Sys.receiverClosed, hclosed, if_true, hi.exit_chan, Option.some.injEq] at hb
      subst hb
      exact .refuse hi hpc (.closedReceiveAgain _ hpc)
    | false =>
      have hclose : s.chan.closeReceive =
          { s.chan with
            openReceiveChannels := s.chan.openReceiveChannels - 1
            notEmpty := s.chan.notEmpty.notifyAll
            notFull := s.chan.notFull.notifyAll } := ChannelState.exit_of_nobody rfl rfl
      simp only [Sys.receiverClosed, hclosed, Bool.false_eq_true, if_false, hclose,
        Option.some.injEq] at hb
      subst hb
      have hmove := Move.closeReceive t h hpc hclosed
      simpa [Sys.goto, update_idle hpc] using hmove

/-- The beginning of a call is a move. -/
theorem begin_move (hi : Inv s) {t : Nat} {op : Op T} (hpc : s.pc t = .idle)
    (h : s.begin t op = some s') : Move s s' (s.popper (.call t op)) := by
  cases op with
  | put h item timeout => exact begin_put_move hi hpc h
  | putNowait h item => exact begin_putNowait_move hi hpc h
  | get h timeout => exact begin_get_move hi hpc h
  | getNowait h => exact begin_getNowait_move hi hpc h
  | cloneSend h => exact begin_cloneSend_move hi hpc h
  | cloneReceive h => exact begin_cloneReceive_move hi hpc h
  | closeSend h => exact begin_closeSend_move hi hpc h
  | closeReceive h => exact begin_closeReceive_move hi hpc h

/-- Under the invariant every step is a move, and it removes an item exactly when `popper` says
so. -/
theorem step_move (hi : Inv s) {a : Act T} (h : s.step a = some s') : Move s s' (s.popper a) := by
  cases a with
  | tick d =>
    cases h
    exact .tick d
  | call t op =>
    unfold Sys.step at h
    cases hpc : s.pc t with
    | idle =>
      simp only [hpc] at h
      exact begin_move hi hpc h
    | putting c phase asleep => simp [hpc] at h
    | getting c asleep => simp [hpc] at h
  | run t => exact run_move hi h

end Inversion

/-! ## The invariant -/

section Invariant

variable {s s' : Sys T}

theorem inv_start (capacity : Option Nat) : Inv (Sys.start capacity : Sys T) where
  openSend := rfl
  openReceive := rfl
  nobody := fun _ => ⟨rfl, rfl⟩
  full := .empty
  empty := .empty

theorem Quiet.awake {t calls : Nat} {pc : Pc T} {evs : List (Event T)}
    (h : Quiet s t pc calls evs) : (s.pc t).awake = true := by
  cases h <;> simp_all [Pc.awake]

theorem Pushes.awake {t calls : Nat} {item : T} {claim : Bool} {pc : Pc T} {evs : List (Event T)}
    (h : Pushes s t item claim pc calls evs) : (s.pc t).awake = true := by
  cases h <;> simp_all [Pc.awake]

theorem Pulls.awake {t calls : Nat} {item : T} {evs : List (Event T)}
    (h : Pulls s t item calls evs) : (s.pc t).awake = true := by
  cases h <;> simp_all [Pc.awake]

/-- The queue of senders survives the move of a thread that it does not hold. -/
theorem holds_full_update {q : Condition Nat} {pc : Nat → Pc T} {senders : List Bool} {t : Nat}
    (p : Pc T) (h : q.Holds (SleepsInPut pc senders) (InPut pc)) (hq : t ∉ q.waiters)
    (hw : t ∉ q.woken) :
    q.Holds (SleepsInPut (Function.update pc t p) senders) (InPut (Function.update pc t p)) := by
  refine h.mono (fun u hu hS => ?_) (fun u hu hW => ?_)
  · have hne : u ≠ t := fun heq => hq (heq ▸ hu)
    simpa [SleepsInPut, Function.update_of_ne hne] using hS
  · have hne : u ≠ t := fun heq => hw (heq ▸ hu)
    simpa [InPut, Function.update_of_ne hne] using hW

/-- The queue of receivers survives the move of a thread that it does not hold. -/
theorem holds_empty_update {q : Condition Nat} {pc : Nat → Pc T} {receivers : List Bool} {t : Nat}
    (p : Pc T) (h : q.Holds (SleepsInGet pc receivers) (InGet pc)) (hq : t ∉ q.waiters)
    (hw : t ∉ q.woken) :
    q.Holds (SleepsInGet (Function.update pc t p) receivers) (InGet (Function.update pc t p)) := by
  refine h.mono (fun u hu hS => ?_) (fun u hu hW => ?_)
  · have hne : u ≠ t := fun heq => hq (heq ▸ hu)
    simpa [SleepsInGet, Function.update_of_ne hne] using hS
  · have hne : u ≠ t := fun heq => hw (heq ▸ hu)
    simpa [InGet, Function.update_of_ne hne] using hW

/-- The queue of senders after an awake thread has taken the lock and moved. -/
theorem Inv.enter_full (hi : Inv s) {t : Nat} (hold : (s.pc t).awake = true) (p : Pc T) :
    (s.chan.notFull.recheck t).Holds (SleepsInPut (Function.update s.pc t p) s.senders)
      (InPut (Function.update s.pc t p)) :=
  holds_full_update p (hi.full.recheck t) (hi.not_mem_full hold)
    (hi.full.distinct.not_mem_recheck t)

/-- The queue of receivers after an awake thread has taken the lock and moved. -/
theorem Inv.enter_empty (hi : Inv s) {t : Nat} (hold : (s.pc t).awake = true) (p : Pc T) :
    (s.chan.notEmpty.recheck t).Holds (SleepsInGet (Function.update s.pc t p) s.receivers)
      (InGet (Function.update s.pc t p)) :=
  holds_empty_update p (hi.empty.recheck t) (hi.not_mem_empty hold)
    (hi.empty.distinct.not_mem_recheck t)

/-- A thread that leaves the queue of senders awake. -/
theorem Inv.drop_full (hi : Inv s) {t : Nat} {c : PutCall T} (phase : Phase) :
    (s.chan.notFull.drop t).Holds
      (SleepsInPut (Function.update s.pc t (.putting c phase false)) s.senders)
      (InPut (Function.update s.pc t (.putting c phase false))) := by
  have hnodup : s.chan.notFull.waiters.Nodup := (List.nodup_append.1 hi.full.distinct).1
  refine (hi.full.drop t).mono (fun u hu hS => ?_) (fun u _ hW => ?_)
  · have hne : u ≠ t := (List.Nodup.mem_erase_iff hnodup).1 hu |>.1
    simpa [SleepsInPut, Function.update_of_ne hne] using hS
  · by_cases hut : u = t
    · subst hut
      exact ⟨c, phase, false, Function.update_self ..⟩
    · simpa [InPut, Function.update_of_ne hut] using hW

/-- A thread that leaves the queue of receivers awake. -/
theorem Inv.drop_empty (hi : Inv s) {t : Nat} {c : GetCall} :
    (s.chan.notEmpty.drop t).Holds
      (SleepsInGet (Function.update s.pc t (.getting c false)) s.receivers)
      (InGet (Function.update s.pc t (.getting c false))) := by
  have hnodup : s.chan.notEmpty.waiters.Nodup := (List.nodup_append.1 hi.empty.distinct).1
  refine (hi.empty.drop t).mono (fun u hu hS => ?_) (fun u _ hW => ?_)
  · have hne : u ≠ t := (List.Nodup.mem_erase_iff hnodup).1 hu |>.1
    simpa [SleepsInGet, Function.update_of_ne hne] using hS
  · by_cases hut : u = t
    · subst hut
      exact ⟨c, false, Function.update_self ..⟩
    · simpa [InGet, Function.update_of_ne hut] using hW

/-- A thread in one kind of call is not in the other queue. -/
theorem Inv.not_mem_empty_of_putting (hi : Inv s) {t : Nat} {c : PutCall T} {phase : Phase}
    {asleep : Bool} (hpc : s.pc t = .putting c phase asleep) :
    t ∉ s.chan.notEmpty.waiters ∧ t ∉ s.chan.notEmpty.woken := by
  constructor
  · intro hmem
    obtain ⟨c', hpc', -⟩ := hi.empty.asleep t hmem
    simp [hpc] at hpc'
  · intro hmem
    obtain ⟨c', asleep', hpc'⟩ := hi.empty.onWay t hmem
    simp [hpc] at hpc'

/-- A receiver does not wait for room. -/
theorem Inv.not_mem_full_of_getting (hi : Inv s) {t : Nat} {c : GetCall} {asleep : Bool}
    (hpc : s.pc t = .getting c asleep) :
    t ∉ s.chan.notFull.waiters ∧ t ∉ s.chan.notFull.woken := by
  constructor
  · intro hmem
    obtain ⟨c', phase', hpc', -⟩ := hi.full.asleep t hmem
    simp [hpc] at hpc'
  · intro hmem
    obtain ⟨c', phase', asleep', hpc'⟩ := hi.full.onWay t hmem
    simp [hpc] at hpc'

theorem getD_append_false {l : List Bool} {h : Nat} (hl : l.getD h true = false) :
    (l ++ [false]).getD h true = false := by
  have hget := getD_eq_false hl
  have hlt : h < l.length := (List.getElem?_eq_some_iff.1 hget).1
  rw [List.getD_eq_getElem?_getD, List.getElem?_append_left hlt, hget]
  rfl

theorem count_append_false (l : List Bool) :
    ((l ++ [false]).count false : Int) = (l.count false : Int) + 1 := by
  simp

theorem count_set_true {l : List Bool} {h : Nat} (hl : l.getD h true = false) :
    ((l.set h true).count false : Int) = (l.count false : Int) - 1 := by
  have hget := getD_eq_false hl
  obtain ⟨hlt, helem⟩ := List.getElem?_eq_some_iff.1 hget
  have hpos := count_pos_of_getD hl
  rw [List.count_set hlt, helem]
  simp only [beq_self_eq_true, if_true, Bool.true_eq_false, beq_iff_eq, if_false]
  omega

/-- Every move keeps the invariant. -/
theorem move_inv (hi : Inv s) {b : Option Nat} (h : Move s s' b) : Inv s' := by
  cases h with
  | tick d => exact ⟨hi.openSend, hi.openReceive, hi.nobody, hi.full, hi.empty⟩
  | quiet t pc calls evs hq =>
    exact ⟨hi.openSend, hi.openReceive, hi.nobody, hi.enter_full hq.awake pc,
      hi.enter_empty hq.awake pc⟩
  -- Only receivers are notified, and the woken one is still on its way to the buffer.
  | push t item claim pc calls evs hp hopen hroom =>
    refine ⟨hi.openSend, hi.openReceive, fun h0 => ?_, hi.enter_full hp.awake pc,
      (hi.enter_empty hp.awake pc).notify fun u hu => hu.inGet⟩
    obtain ⟨hne, hnf⟩ := hi.nobody h0
    exact ⟨by simp [ChannelState.push, hne], hnf⟩
  | pull t item rest calls evs hp hbuf =>
    refine ⟨hi.openSend, hi.openReceive, fun h0 => ?_,
      (hi.enter_full hp.awake .idle).notify fun u hu => hu.inPut,
      hi.enter_empty hp.awake .idle⟩
    obtain ⟨hne, hnf⟩ := hi.nobody h0
    exact ⟨hne, by simp [ChannelState.take, hnf]⟩
  -- The sleeper has an open handle and some receiver is open, so `nobody` does not apply.
  | sleepSend t c phase hpc hopen hwait =>
    have hawake : (s.pc t).awake = true := by simp [hpc, Pc.awake]
    have hcount : 0 < s.senders.count false := count_pos_of_getD hopen
    have hrecv : s.chan.openReceiveChannels ≠ 0 := hwait.receivers
    have hsend := hi.openSend
    refine ⟨hsend, hi.openReceive, fun h0 => ?_, ?_, hi.enter_empty hawake _⟩
    · simp only [ChannelState.enter_openSendChannels,
        ChannelState.enter_openReceiveChannels] at h0
      omega
    · exact (hi.enter_full hawake _).wait ⟨c, phase, Function.update_self .., hopen⟩
        (hi.not_mem_full hawake) (hi.full.distinct.not_mem_recheck t)
  | sleepReceive t c hpc hopen hsend hbuf =>
    have hawake : (s.pc t).awake = true := by simp [hpc, Pc.awake]
    have hcount : 0 < s.receivers.count false := count_pos_of_getD hopen
    have hrecv := hi.openReceive
    refine ⟨hi.openSend, hrecv, fun h0 => ?_, hi.enter_full hawake _, ?_⟩
    · simp only [ChannelState.enter_openSendChannels,
        ChannelState.enter_openReceiveChannels] at h0
      omega
    · exact (hi.enter_empty hawake _).wait ⟨c, Function.update_self .., hopen⟩
        (hi.not_mem_empty hawake) (hi.empty.distinct.not_mem_recheck t)
  | wakeSend t c phase hpc =>
    obtain ⟨hq, hw⟩ := hi.not_mem_empty_of_putting hpc
    refine ⟨hi.openSend, hi.openReceive, fun h0 => ?_, hi.drop_full phase,
      holds_empty_update _ hi.empty hq hw⟩
    obtain ⟨hne, hnf⟩ := hi.nobody h0
    exact ⟨hne, by simp [hnf]⟩
  | wakeReceive t c hpc =>
    obtain ⟨hq, hw⟩ := hi.not_mem_full_of_getting hpc
    refine ⟨hi.openSend, hi.openReceive, fun h0 => ?_, holds_full_update _ hi.full hq hw,
      hi.drop_empty⟩
    obtain ⟨hne, hnf⟩ := hi.nobody h0
    exact ⟨by simp [hne], hnf⟩
  -- A handle is added at the end, so the open handles of the sleepers are the same.
  | cloneSend t h hpc hopen =>
    have hcount : 0 < s.senders.count false := count_pos_of_getD hopen
    have hsend := hi.openSend
    refine ⟨?_, hi.openReceive, fun h0 => ?_, hi.full.mono (fun u _ hu => ?_) fun u _ hu => hu,
      hi.empty⟩
    · simp only [count_append_false, hsend]
    · exact hi.nobody (Or.inr (h0.resolve_left (by simp only; omega)))
    · obtain ⟨c, phase, hu, hclosed⟩ := hu
      exact ⟨c, phase, hu, getD_append_false hclosed⟩
  | cloneReceive t h hpc hopen =>
    have hcount : 0 < s.receivers.count false := count_pos_of_getD hopen
    have hrecv := hi.openReceive
    refine ⟨hi.openSend, ?_, fun h0 => ?_, hi.full,
      hi.empty.mono (fun u _ hu => ?_) fun u _ hu => hu⟩
    · simp only [count_append_false, hrecv]
    · exact hi.nobody (Or.inl (h0.resolve_right (by simp only; omega)))
    · obtain ⟨c, hu, hclosed⟩ := hu
      exact ⟨c, hu, getD_append_false hclosed⟩
  -- A close notifies everybody, so both queues are empty.
  | closeSend t h hpc hopen =>
    refine ⟨?_, hi.openReceive, fun _ => ⟨rfl, rfl⟩, hi.full.notifyAll fun u hu => hu.inPut,
      hi.empty.notifyAll fun u hu => hu.inGet⟩
    simp only [count_set_true hopen, hi.openSend]
  | closeReceive t h hpc hopen =>
    refine ⟨hi.openSend, ?_, fun _ => ⟨rfl, rfl⟩, hi.full.notifyAll fun u hu => hu.inPut,
      hi.empty.notifyAll fun u hu => hu.inGet⟩
    simp only [count_set_true hopen, hi.openReceive]

/-- The capacity of a channel never changes. -/
theorem move_capacity {b : Option Nat} (h : Move s s' b) : s'.chan.capacity = s.chan.capacity := by
  cases h <;> rfl

/-- The invariant together with the capacity the channel was created with. -/
structure InvOf (capacity : Option Nat) (s : Sys T) : Prop where
  inv : Inv s
  capacity_eq : s.chan.capacity = capacity

theorem InvOf.step {capacity : Option Nat} (hi : InvOf capacity s) {a : Act T}
    (hstep : s.step a = some s') : InvOf capacity s' := by
  have hmove := step_move hi.inv hstep
  exact ⟨move_inv hi.inv hmove, (move_capacity hmove).trans hi.capacity_eq⟩

theorem invOf_start (capacity : Option Nat) : InvOf capacity (Sys.start capacity : Sys T) :=
  ⟨inv_start capacity, rfl⟩

/-- The invariant holds in every reachable state of a channel. -/
theorem invOf_reachable {capacity : Option Nat} (h : (system T capacity).Reachable s) :
    InvOf capacity s := by
  refine Lts.invariant (fun r hr => ?_) (fun r a u hr hstep => hr.step hstep) h
  rw [hr]
  exact invOf_start capacity

/-- A predicate that holds of a new channel and is kept by every move of a reachable one holds in
every reachable state. -/
theorem invariant_of_moves {capacity : Option Nat} {I : Sys T → Prop}
    (hinit : I (Sys.start capacity))
    (hmove : ∀ r u b, (system T capacity).Reachable r → I r → Move r u b → I u)
    (h : (system T capacity).Reachable s) : I s := by
  refine Lts.invariant_of_reachable (fun r hr => ?_) (fun r a u hreach hr hstep => ?_) h
  · rw [hr]
    exact hinit
  · exact hmove r u _ hreach hr (step_move (invOf_reachable hreach).inv hstep)

end Invariant

end LocalPost.Threadtools.Channel
