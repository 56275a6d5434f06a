import LocalPost.Threadtools.Channel.Transition

/-!
# No lost wake-up in a buffered channel

A `put` notifies one receiver and a `_take` notifies one sender. The receivers are covered in every
channel: while one of them sleeps, every item in the buffer has a notified receiver on its way that
can still take it (`receivers_covered`). The senders are covered in the same sense when the capacity
is not zero: every free slot has a notified sender on its way (`senders_covered`). A receiver that
times out, finds its handle closed or finds the buffer emptied by a barging `get_nowait` does not
break the count, because none of them leaves an item behind that was counted on it.
-/

set_option autoImplicit false

namespace LocalPost.Threadtools.Channel

open LocalPost.Core

universe u

variable {T : Type u}

/-- Thread `t` is in a `get` whose handle is not closed. -/
def Sys.canTake (s : Sys T) (t : Nat) : Bool :=
  match s.pc t with
  | .getting c _ => !s.receiverClosed c.handle
  | _ => false

/-- Thread `t` is in a `put` whose handle is not closed. -/
def Sys.canAppend (s : Sys T) (t : Nat) : Bool :=
  match s.pc t with
  | .putting c _ _ => !s.senderClosed c.handle
  | _ => false

/-- The number of notified receivers that are still on their way and have an open handle. -/
def Sys.gettersOnWay (s : Sys T) : Nat := s.chan.notEmpty.woken.countP s.canTake

/-- The number of notified senders that are still on their way and have an open handle. -/
def Sys.puttersOnWay (s : Sys T) : Nat := s.chan.notFull.woken.countP s.canAppend

/-- Every item in the buffer is matched by a notified receiver, as long as one sleeps. -/
def ReceiversCovered (s : Sys T) : Prop :=
  s.chan.notEmpty.Covered s.canTake (s.chan.buffer.length : Int)

/-- Every free slot of `n` is matched by a notified sender, as long as one sleeps. -/
def SendersCovered (n : Nat) (s : Sys T) : Prop :=
  s.chan.notFull.Covered s.canAppend ((n : Int) - s.chan.buffer.length)

section Threads

variable {s : Sys T}

/-- Moving a thread that is not on its way leaves the count of the others alone. -/
theorem canTake_update {q : Condition Nat} {chan : ChannelState T} {t calls : Nat} {p : Pc T}
    {log : List (Event T)} (ht : t ∉ q.woken) :
    ∀ u ∈ q.woken, s.canTake u = true → Sys.canTake { s with
      chan := chan, pc := Function.update s.pc t p, calls := calls, log := log } u = true := by
  intro u hu hp
  have hne : u ≠ t := fun heq => ht (heq ▸ hu)
  simpa [Sys.canTake, Function.update_of_ne hne, Sys.receiverClosed] using hp

theorem canAppend_update {q : Condition Nat} {chan : ChannelState T} {t calls : Nat} {p : Pc T}
    {log : List (Event T)} (ht : t ∉ q.woken) :
    ∀ u ∈ q.woken, s.canAppend u = true → Sys.canAppend { s with
      chan := chan, pc := Function.update s.pc t p, calls := calls, log := log } u = true := by
  intro u hu hp
  have hne : u ≠ t := fun heq => ht (heq ▸ hu)
  simpa [Sys.canAppend, Function.update_of_ne hne, Sys.senderClosed] using hp

theorem canTake_of_sleeps {t : Nat} (h : SleepsInGet s.pc s.receivers t) :
    s.canTake t = true := by
  obtain ⟨c, hpc, hopen⟩ := h
  simp only [Sys.canTake, hpc, Sys.receiverClosed, hopen, Bool.not_false]

theorem canAppend_of_sleeps {t : Nat} (h : SleepsInPut s.pc s.senders t) :
    s.canAppend t = true := by
  obtain ⟨c, phase, hpc, hopen⟩ := h
  simp only [Sys.canAppend, hpc, Sys.senderClosed, hopen, Bool.not_false]

theorem Inv.recheck_empty_of_idle (hi : Inv s) {t : Nat} (hpc : s.pc t = .idle) :
    s.chan.notEmpty.recheck t = s.chan.notEmpty :=
  Condition.recheck_of_not_mem (hi.not_woken_of_idle hpc).1

theorem Inv.recheck_full_of_idle (hi : Inv s) {t : Nat} (hpc : s.pc t = .idle) :
    s.chan.notFull.recheck t = s.chan.notFull :=
  Condition.recheck_of_not_mem (hi.not_woken_of_idle hpc).2

theorem Inv.recheck_empty_of_putting (hi : Inv s) {t : Nat} {c : PutCall T} {phase : Phase}
    {asleep : Bool} (hpc : s.pc t = .putting c phase asleep) :
    s.chan.notEmpty.recheck t = s.chan.notEmpty :=
  Condition.recheck_of_not_mem (hi.not_mem_empty_of_putting hpc).2

theorem Inv.recheck_full_of_getting (hi : Inv s) {t : Nat} {c : GetCall} {asleep : Bool}
    (hpc : s.pc t = .getting c asleep) : s.chan.notFull.recheck t = s.chan.notFull :=
  Condition.recheck_of_not_mem (hi.not_mem_full_of_getting hpc).2

end Threads

/-! ## Receivers -/

section Receivers

variable {s s' : Sys T}

/-- A thread that leaves its block without an item was covering none: it is no receiver, its handle
is closed, or the buffer is empty. -/
theorem Quiet.receivers_covered (hi : Inv s) (hc : ReceiversCovered s) {t calls : Nat} {pc : Pc T}
    {evs : List (Event T)} (hq : Quiet s t pc calls evs) :
    (s.chan.notEmpty.recheck t).Covered s.canTake (s.chan.buffer.length : Int) := by
  cases hq with
  | beginPut h item timeout d hpc hd => rwa [hi.recheck_empty_of_idle hpc]
  | beginGet h timeout d hpc hd => rwa [hi.recheck_empty_of_idle hpc]
  | refused op e hpc => rwa [hi.recheck_empty_of_idle hpc]
  | closedAgain h hpc => rwa [hi.recheck_empty_of_idle hpc]
  | closedReceiveAgain h hpc => rwa [hi.recheck_empty_of_idle hpc]
  | putRaised c e hpc hwhy => rwa [hi.recheck_empty_of_putting hpc]
  | handoffClosed c myTarget hpc hclosed => rwa [hi.recheck_empty_of_putting hpc]
  | handoffTimeout c myTarget hpc hlt hopen => rwa [hi.recheck_empty_of_putting hpc]
  | handoffReturned c myTarget hpc hopen hdone => rwa [hi.recheck_empty_of_putting hpc]
  | getRaised c e hpc hwhy =>
    rcases hwhy with hclosed | hbuf
    · exact Condition.Covered.recheck_of_not hc (by simp [Sys.canTake, hpc, hclosed])
    · exact Condition.Covered.of_nonpos (by simp [hbuf])

/-- No move leaves an item without a receiver. The cases that count: a `put` adds an item and
notifies one receiver, a `_take` removes an item together with the receiver that took it. -/
theorem move_receivers_covered (hi : Inv s) (hc : ReceiversCovered s) {b : Option Nat}
    (h : Move s s' b) : ReceiversCovered s' := by
  cases h with
  | tick d => exact hc
  | quiet t pc calls evs hq =>
    exact (hq.receivers_covered hi hc).imp (canTake_update (hi.empty.distinct.not_mem_recheck t))
  | push t item claim pc calls evs hp hopen hroom =>
    -- The sender is in no queue of receivers, so only the notification changes that queue.
    have hold : t ∉ s.chan.notEmpty.woken := by
      cases hp with
      | nowait h item hpc hclosed => exact (hi.not_woken_of_idle hpc).1
      | put c hpc hclosed hcap => exact (hi.not_mem_empty_of_putting hpc).2
      | rendezvous c hpc hclosed hcap => exact (hi.not_mem_empty_of_putting hpc).2
    have henter : s.chan.notEmpty.recheck t = s.chan.notEmpty :=
      Condition.recheck_of_not_mem hold
    have hasleep : ∀ u ∈ s.chan.notEmpty.waiters, s.canTake u = true :=
      fun u hu => canTake_of_sleeps (hi.empty.asleep u hu)
    have hcount : ((s.chan.buffer ++ [item]).length : Int) = s.chan.buffer.length + 1 := by simp
    have hlater : t ∉ s.chan.notEmpty.notify.woken := by
      intro hmem
      rcases Condition.mem_woken_notify hmem with hw | hq
      · exact hold hw
      · exact hi.not_mem_empty hp.awake hq
    simp only [ReceiversCovered, ChannelState.push, ChannelState.enter_notEmpty,
      ChannelState.enter_buffer, henter, hcount]
    exact (Condition.Covered.notify hc hasleep).imp (canTake_update hlater)
  | pull t item rest calls evs hp hbuf =>
    have hcount : (rest.length : Int) = s.chan.buffer.length - 1 := by simp [hbuf]
    simp only [ReceiversCovered, ChannelState.take, ChannelState.enter_notEmpty, hcount]
    exact (Condition.Covered.recheck hc t).imp
      (canTake_update (hi.empty.distinct.not_mem_recheck t))
  | sleepSend t c phase hpc hopen hwait =>
    simp only [ReceiversCovered, ChannelState.enter_notEmpty, ChannelState.enter_buffer,
      hi.recheck_empty_of_putting hpc]
    exact hc.imp (canTake_update (hi.not_mem_empty_of_putting hpc).2)
  -- It sleeps on an empty buffer: no item needs a receiver.
  | sleepReceive t c hpc hopen hsend hbuf =>
    exact Condition.Covered.of_nonpos (by simp [hbuf])
  | wakeSend t c phase hpc =>
    exact hc.imp (canTake_update (hi.not_mem_empty_of_putting hpc).2)
  | wakeReceive t c hpc =>
    refine (Condition.Covered.drop hc t).imp fun u _ hu => ?_
    by_cases hut : u = t
    · subst hut
      simpa [Sys.canTake, hpc, Sys.receiverClosed] using hu
    · simpa [Sys.canTake, Function.update_of_ne hut, Sys.receiverClosed] using hu
  | cloneSend t h hpc hopen => exact hc
  | cloneReceive t h hpc hopen =>
    refine hc.imp fun u hu hp => ?_
    obtain ⟨c, asleep, hu'⟩ := hi.empty.onWay u hu
    simp only [Sys.canTake, hu', Sys.receiverClosed, Bool.not_eq_true'] at hp ⊢
    exact getD_append_false hp
  -- A close leaves no sleeper to cover.
  | closeSend t h hpc hopen => exact Condition.Covered.of_waiters_nil rfl
  | closeReceive t h hpc hopen => exact Condition.Covered.of_waiters_nil rfl

/-- In every reachable state of every channel the receivers are covered. -/
theorem receivers_covered {capacity : Option Nat} (h : (system T capacity).Reachable s) :
    ReceiversCovered s :=
  invariant_of_moves (Condition.Covered.of_waiters_nil rfl)
    (fun _ _ _ hr hc hmove => move_receivers_covered (invOf_reachable hr).inv hc hmove) h

end Receivers

/-! ## Senders -/

section Senders

variable {s s' : Sys T}

/-- Only a rendezvous has a second phase. -/
def HandoffOnlyInRendezvous (s : Sys T) : Prop :=
  ∀ t c myTarget asleep, s.pc t = .putting c (.handoff myTarget) asleep → s.chan.capacity = some 0

/-- Only a rendezvous has somebody wait for the hand-over. -/
theorem HandoffOnlyInRendezvous.update (hn : HandoffOnlyInRendezvous s) {t : Nat} {p : Pc T}
    (hp : ∀ c myTarget asleep, p = .putting c (.handoff myTarget) asleep →
      s.chan.capacity = some 0) :
    ∀ u c myTarget asleep,
      Function.update s.pc t p u = .putting c (.handoff myTarget) asleep →
        s.chan.capacity = some 0 := by
  intro u c myTarget asleep hu
  by_cases hut : u = t
  · subst hut
    rw [Function.update_self] at hu
    exact hp c myTarget asleep hu
  · rw [Function.update_of_ne hut] at hu
    exact hn u c myTarget asleep hu

/-- A move keeps the waits for a hand-over to the rendezvous. -/
theorem move_handoffOnly (hn : HandoffOnlyInRendezvous s) {b : Option Nat} (h : Move s s' b) :
    HandoffOnlyInRendezvous s' := by
  cases h with
  | tick d => exact hn
  | quiet t pc calls evs hq =>
    refine hn.update fun c myTarget asleep hp => ?_
    cases hq <;> simp at hp
  -- a new hand-off comes from a put on a rendezvous channel
  | push t item claim pc calls evs hp hopen hroom =>
    refine hn.update fun c myTarget asleep hpc => ?_
    cases hp with
    | nowait => simp at hpc
    | put => simp at hpc
    | rendezvous c hpc' hclosed hcap => exact hcap
  | pull t item rest calls evs hp hbuf => exact hn.update (by simp)
  | sleepSend t c phase hpc hopen hwait =>
    refine hn.update fun c' myTarget asleep hp => ?_
    cases hp
    exact hn t c myTarget false hpc
  | sleepReceive t c hpc hopen hsend hbuf => exact hn.update (by simp)
  | wakeSend t c phase hpc =>
    refine hn.update fun c' myTarget asleep hp => ?_
    cases hp
    exact hn t c myTarget true hpc
  | wakeReceive t c hpc => exact hn.update (by simp)
  | cloneSend t h hpc hopen => exact hn
  | cloneReceive t h hpc hopen => exact hn
  | closeSend t h hpc hopen => exact hn
  | closeReceive t h hpc hopen => exact hn

/-- A buffered channel: never more items than its capacity, no hand-off, senders covered. -/
structure Buffered (n : Nat) (s : Sys T) : Prop where
  bounded : s.chan.buffer.length ≤ n
  handoffOnly : HandoffOnlyInRendezvous s
  covered : SendersCovered n s

theorem not_canPut {n : Nat} {st : ChannelState T} (hcap : st.capacity = some n) (hn : n ≠ 0)
    (h : st.canPut ≠ .ok true) : st.openReceiveChannels = 0 ∨ n ≤ st.buffer.length := by
  by_contra hcon
  rw [not_or, Nat.not_le] at hcon
  apply h
  cases n with
  | zero => exact absurd rfl hn
  | succ k => simp [ChannelState.canPut, hcap, hcon.1, hcon.2]

/-- A thread that leaves its block without appending was covering no slot: it is no sender, its
handle is closed, no receiver is left, or the buffer is full. -/
theorem Quiet.senders_covered {n : Nat} (hn : n ≠ 0) (hi : InvOf (some n) s) (hb : Buffered n s)
    {t calls : Nat} {pc : Pc T} {evs : List (Event T)} (hq : Quiet s t pc calls evs) :
    (s.chan.notFull.recheck t).Covered s.canAppend ((n : Int) - s.chan.buffer.length) := by
  have hc := hb.covered
  have hcap : s.chan.capacity ≠ some 0 := by simp [hi.capacity_eq, hn]
  cases hq with
  | beginPut h item timeout d hpc hd => rwa [hi.inv.recheck_full_of_idle hpc]
  | beginGet h timeout d hpc hd => rwa [hi.inv.recheck_full_of_idle hpc]
  | refused op e hpc => rwa [hi.inv.recheck_full_of_idle hpc]
  | closedAgain h hpc => rwa [hi.inv.recheck_full_of_idle hpc]
  | closedReceiveAgain h hpc => rwa [hi.inv.recheck_full_of_idle hpc]
  | putRaised c e hpc hwhy =>
    rcases hwhy with hclosed | hcan
    · exact Condition.Covered.recheck_of_not hc (by simp [Sys.canAppend, hpc, hclosed])
    · rcases not_canPut hi.capacity_eq hn hcan with hrecv | hfull
      · exact Condition.Covered.of_waiters_nil (hi.inv.nobody (Or.inr hrecv)).2
      · exact Condition.Covered.of_nonpos (by omega)
  | handoffClosed c myTarget hpc hclosed =>
    exact absurd (hb.handoffOnly t c myTarget false hpc) hcap
  | handoffTimeout c myTarget hpc hlt hopen =>
    exact absurd (hb.handoffOnly t c myTarget false hpc) hcap
  | handoffReturned c myTarget hpc hopen hdone =>
    exact absurd (hb.handoffOnly t c myTarget false hpc) hcap
  | getRaised c e hpc hwhy => rwa [hi.inv.recheck_full_of_getting hpc]

/-- The mirror image of `move_receivers_covered`: a `_take` frees a slot and notifies one sender, an
append uses up a slot together with the sender that used it. -/
theorem move_senders_covered {n : Nat} (hn : n ≠ 0) (hi : InvOf (some n) s) (hb : Buffered n s)
    {b : Option Nat} (h : Move s s' b) : SendersCovered n s' := by
  have hc := hb.covered
  cases h with
  | tick d => exact hc
  | quiet t pc calls evs hq =>
    exact (hq.senders_covered hn hi hb).imp
      (canAppend_update (hi.inv.full.distinct.not_mem_recheck t))
  | push t item claim pc calls evs hp hopen hroom =>
    have hcount : ((n : Int) - (s.chan.buffer ++ [item]).length) =
        (n : Int) - s.chan.buffer.length - 1 := by
      simp only [List.length_append, List.length_singleton]
      omega
    simp only [SendersCovered, ChannelState.push, ChannelState.enter_notFull,
      ChannelState.enter_buffer, hcount]
    exact (Condition.Covered.recheck hc t).imp
      (canAppend_update (hi.inv.full.distinct.not_mem_recheck t))
  | pull t item rest calls evs hp hbuf =>
    -- The receiver is in no queue of senders, so only the notification changes that queue.
    have hold : t ∉ s.chan.notFull.woken := by
      cases hp with
      | nowait h item hpc hclosed => exact (hi.inv.not_woken_of_idle hpc).2
      | get c item hpc hclosed => exact (hi.inv.not_mem_full_of_getting hpc).2
    have henter : s.chan.notFull.recheck t = s.chan.notFull :=
      Condition.recheck_of_not_mem hold
    have hasleep : ∀ u ∈ s.chan.notFull.waiters, s.canAppend u = true :=
      fun u hu => canAppend_of_sleeps (hi.inv.full.asleep u hu)
    have hcount : ((n : Int) - rest.length) = (n : Int) - s.chan.buffer.length + 1 := by
      simp only [hbuf, List.length_cons]
      omega
    have hlater : t ∉ s.chan.notFull.notify.woken := by
      intro hmem
      rcases Condition.mem_woken_notify hmem with hw | hq
      · exact hold hw
      · exact hi.inv.not_mem_full hp.awake hq
    simp only [SendersCovered, ChannelState.take, ChannelState.enter_notFull, henter, hcount]
    exact (Condition.Covered.notify hc hasleep).imp (canAppend_update hlater)
  | sleepSend t c phase hpc hopen hwait =>
    cases phase with
    | space =>
      have hcan : s.chan.canPut ≠ .ok true := by simp [show s.chan.canPut = .ok false from hwait]
      have hfull := (not_canPut hi.capacity_eq hn hcan).resolve_left hwait.receivers
      exact Condition.Covered.of_nonpos (by simp only [ChannelState.enter_buffer]; omega)
    -- A buffered channel has no handoff phase.
    | handoff myTarget =>
      have hcap := hb.handoffOnly t c myTarget false hpc
      rw [hi.capacity_eq] at hcap
      simp [hn] at hcap
  | sleepReceive t c hpc hopen hsend hbuf =>
    simp only [SendersCovered, ChannelState.enter_notFull, ChannelState.enter_buffer,
      hi.inv.recheck_full_of_getting hpc]
    exact hc.imp (canAppend_update (hi.inv.not_mem_full_of_getting hpc).2)
  | wakeSend t c phase hpc =>
    refine (Condition.Covered.drop hc t).imp fun u _ hu => ?_
    by_cases hut : u = t
    · subst hut
      simpa [Sys.canAppend, hpc, Sys.senderClosed] using hu
    · simpa [Sys.canAppend, Function.update_of_ne hut, Sys.senderClosed] using hu
  | wakeReceive t c hpc =>
    exact hc.imp (canAppend_update (hi.inv.not_mem_full_of_getting hpc).2)
  | cloneSend t h hpc hopen =>
    refine hc.imp fun u hu hp => ?_
    obtain ⟨c, phase, asleep, hu'⟩ := hi.inv.full.onWay u hu
    simp only [Sys.canAppend, hu', Sys.senderClosed, Bool.not_eq_true'] at hp ⊢
    exact getD_append_false hp
  | cloneReceive t h hpc hopen => exact hc
  -- A close leaves no sleeper to cover.
  | closeSend t h hpc hopen => exact Condition.Covered.of_waiters_nil rfl
  | closeReceive t h hpc hopen => exact Condition.Covered.of_waiters_nil rfl

/-- Only a push makes the buffer longer, and it finds room for one item. -/
theorem move_bounded {n : Nat} (hn : n ≠ 0) (hi : InvOf (some n) s)
    (hb : s.chan.buffer.length ≤ n) {b : Option Nat} (h : Move s s' b) :
    s'.chan.buffer.length ≤ n := by
  cases h with
  -- a put has found room, a take makes some; nothing else changes the buffer
  | push t item claim pc calls evs hp hopen hroom =>
    cases n with
    | zero => exact absurd rfl hn
    | succ k =>
      simp only [ChannelState.HasRoom, hi.capacity_eq] at hroom
      simp only [ChannelState.push, ChannelState.enter_buffer, List.length_append,
        List.length_singleton]
      omega
  | pull t item rest calls evs hp hbuf =>
    simp only [ChannelState.take]
    rw [hbuf, List.length_cons] at hb
    omega
  | tick => exact hb
  | quiet => exact hb
  | sleepSend => exact hb
  | sleepReceive => exact hb
  | wakeSend => exact hb
  | wakeReceive => exact hb
  | cloneSend => exact hb
  | cloneReceive => exact hb
  | closeSend => exact hb
  | closeReceive => exact hb

theorem buffered_reachable {n : Nat} (hn : n ≠ 0) (h : (system T (some n)).Reachable s) :
    Buffered n s := by
  refine invariant_of_moves ⟨Nat.zero_le n, fun t c myTarget asleep hpc => ?_,
    Condition.Covered.of_waiters_nil rfl⟩ (fun r u b hr hb hmove => ?_) h
  · cases hpc
  · have hi := invOf_reachable hr
    exact ⟨move_bounded hn hi hb.bounded hmove, move_handoffOnly hb.handoffOnly hmove,
      move_senders_covered hn hi hb hmove⟩

/-- A channel in which no `put` waits: no hand-off, and nobody asleep on `not_full`. -/
structure NeverFull (s : Sys T) : Prop where
  handoffOnly : HandoffOnlyInRendezvous s
  nobody : s.chan.notFull.waiters = []

/-- A channel in which no `put` waits stays one. -/
theorem move_neverFull (hi : InvOf none s) (hf : NeverFull s) {b : Option Nat} (h : Move s s' b) :
    NeverFull s' := by
  have hw := hf.nobody
  refine ⟨move_handoffOnly hf.handoffOnly h, ?_⟩
  cases h with
  | sleepSend t c phase hpc hopen hwait =>
    cases phase with
    | space =>
      have hcan : s.chan.canPut = .ok true := by
        simp [ChannelState.canPut, hi.capacity_eq, hwait.receivers]
      rw [ChannelState.Waits, hcan] at hwait
      cases hwait
    | handoff myTarget =>
      have hcap := hf.handoffOnly t c myTarget false hpc
      rw [hi.capacity_eq] at hcap
      cases hcap
  | pull t item rest calls evs hp hbuf => simp [ChannelState.take, hw]
  | wakeSend t c phase hpc => simp [hw]
  | closeSend => rfl
  | closeReceive => rfl
  | _ => exact hw

theorem neverFull_reachable (h : (system T none).Reachable s) : NeverFull s := by
  refine invariant_of_moves ⟨fun t c myTarget asleep hpc => ?_, rfl⟩
    (fun r u b hr hf hmove => move_neverFull (invOf_reachable hr) hf hmove) h
  cases hpc

end Senders

/-! ## The buffered channel -/

/-- No sleeping receiver is left behind: the items in the buffer do not outnumber the notified
receivers on their way, a sender is left, and the receiver's own handle is open. -/
def NoReceiverStranded (s : Sys T) : Prop :=
  ∀ t ∈ s.chan.notEmpty.waiters,
    s.chan.buffer.length ≤ s.gettersOnWay ∧ s.chan.openSendChannels ≠ 0 ∧
      ∃ c, s.pc t = .getting c true ∧ s.receiverClosed c.handle = false

/-- No sleeping sender is left behind: the channel is bounded, its free slots do not outnumber the
notified senders on their way, a receiver is left, and the sender's own handle is open. -/
def NoSenderLeftBehind (s : Sys T) : Prop :=
  ∀ t ∈ s.chan.notFull.waiters,
    (∃ n, s.chan.capacity = some n ∧ n - s.chan.buffer.length ≤ s.puttersOnWay) ∧
      s.chan.openReceiveChannels ≠ 0 ∧
      ∃ c, s.pc t = .putting c .space true ∧ s.senderClosed c.handle = false

section Main

variable {s : Sys T}

theorem noReceiverStranded {capacity : Option Nat} (h : (system T capacity).Reachable s) :
    NoReceiverStranded s := by
  intro t ht
  have hi := (invOf_reachable h).inv
  have hne : s.chan.notEmpty.waiters ≠ [] := List.ne_nil_of_mem ht
  have hcount := receivers_covered h hne
  refine ⟨Int.ofNat_le.1 hcount, fun h0 => ?_, hi.empty.asleep t ht⟩
  exact hne (hi.nobody (Or.inl h0)).1

/-- In no reachable state of a channel with a buffer is a sleeping sender left behind. -/
theorem noSenderLeftBehind {capacity : Option Nat} (hcap : capacity ≠ some 0)
    (h : (system T capacity).Reachable s) : NoSenderLeftBehind s := by
  intro t ht
  have hi := invOf_reachable h
  have hne : s.chan.notFull.waiters ≠ [] := List.ne_nil_of_mem ht
  cases capacity with
  | none => exact absurd (neverFull_reachable h).nobody hne
  | some n =>
    have hn : n ≠ 0 := fun h0 => hcap (by rw [h0])
    have hb := buffered_reachable hn h
    have hcount := hb.covered hne
    obtain ⟨c, phase, hpc, hopen⟩ := hi.inv.full.asleep t ht
    refine ⟨⟨n, hi.capacity_eq, ?_⟩, fun h0 => hne (hi.inv.nobody (Or.inr h0)).2, c, ?_, hopen⟩
    · unfold Sys.puttersOnWay
      omega
    · cases phase with
      | space => exact hpc
      | handoff myTarget =>
        have hzero := hb.handoffOnly t c myTarget true hpc
        rw [hi.capacity_eq] at hzero
        exact absurd hzero hcap

/-- In every reachable state of a buffered channel: the buffer is within the capacity, the counters
are the numbers of unclosed handles, and nobody sleeps un-notified on something that is there. -/
theorem buffered_no_lost_wakeup {capacity : Option Nat} (hcap : capacity ≠ some 0)
    (h : (system T capacity).Reachable s) :
    (∀ n, capacity = some n → s.chan.buffer.length ≤ n) ∧
      s.chan.openSendChannels = s.senders.count false ∧
      s.chan.openReceiveChannels = s.receivers.count false ∧
      NoReceiverStranded s ∧ NoSenderLeftBehind s := by
  have hi := (invOf_reachable h).inv
  refine ⟨?_, hi.openSend, hi.openReceive, noReceiverStranded h, noSenderLeftBehind hcap h⟩
  rintro n rfl
  exact (buffered_reachable (fun h0 => hcap (by rw [h0])) h).bounded

/-- Two receivers fall asleep on a channel of capacity one, then an item arrives. -/
def twoGetsOnePut : List (Act Nat) :=
  [.call 0 (.get 0 none), .run 0, .call 1 (.get 0 none), .run 1, .call 2 (.putNowait 0 7)]

/-- One of the two receivers sleeps on, and the item is covered by the other one. -/
theorem buffered_no_lost_wakeup_twoGetsOnePut :
    ∃ s : Sys Nat, s.chan.buffer = [7] ∧ s.chan.notEmpty.waiters = [1] ∧
      s.chan.notEmpty.woken = [0] ∧ NoReceiverStranded s ∧ NoSenderLeftBehind s := by
  have hreach := Lts.Reachable.of_isSome (M := system Nat (some 1)) rfl twoGetsOnePut rfl
  have hmain := buffered_no_lost_wakeup (by decide) hreach
  exact ⟨_, rfl, rfl, rfl, hmain.2.2.2⟩

end Main

end LocalPost.Threadtools.Channel
