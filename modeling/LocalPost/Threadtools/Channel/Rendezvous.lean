import LocalPost.Threadtools.Channel.Wakeup

/-!
# Senders asleep in a rendezvous channel

With capacity zero, senders in phase 1 (waiting for a slot) and senders in phase 2 (waiting for
their own item to be consumed) sleep on the same condition, and a `_take` notifies only the longest
waiting one. `NoSenderLost` says that no sender sleeps on although what it waits for has come true,
unless receivers on their way to an item will notify up to it. A `_take` that enables a sender out
of reach breaks it, and nothing else does: `move_noSenderLost` is the one-step equivalence,
`rendezvous_no_sender_lost` the same for whole runs, and `rendezvous_standoff` is a run in which a
sender and a receiver sleep for ever although the buffer is empty.
-/

set_option autoImplicit false

namespace LocalPost.Threadtools.Channel

open LocalPost.Core

universe u

variable {T : Type u}

/-- What the phase of a `put` waits for has come true. -/
def ChannelState.PhaseReady (st : ChannelState T) : Phase → Prop
  | .space => st.canPut = .ok true
  | .handoff myTarget => myTarget ≤ st.itemsConsumed

/-- The sleeping sender `w` would not wait again: its handle is closed, no receiver is left, or what
its phase waits for has come true. -/
def Sys.Ready (s : Sys T) (w : Nat) : Prop :=
  ∃ c phase, s.pc w = .putting c phase true ∧
    (s.senderClosed c.handle = true ∨ s.chan.openReceiveChannels = 0 ∨ s.chan.PhaseReady phase)

/-- Thread `t` is in a `get` with an open handle, and not asleep un-notified: its next block takes
an item if there is one. -/
def Sys.OnWay (s : Sys T) (t : Nat) : Prop :=
  ∃ c asleep, s.pc t = .getting c asleep ∧ s.receiverClosed c.handle = false ∧
    t ∉ s.chan.notEmpty.waiters

instance (s : Sys T) (t : Nat) : Decidable (s.OnWay t) :=
  match h : s.pc t with
  | .getting c asleep =>
    decidable_of_iff (s.receiverClosed c.handle = false ∧ t ∉ s.chan.notEmpty.waiters)
      ⟨fun hway => ⟨c, asleep, h, hway⟩,
        fun ⟨_, _, hpc, hway⟩ => by cases h.symm.trans hpc; exact hway⟩
  | .idle => isFalse fun ⟨_, _, hpc, _⟩ => by cases h.symm.trans hpc
  | .putting _ _ _ => isFalse fun ⟨_, _, hpc, _⟩ => by cases h.symm.trans hpc

/-- Receivers on their way to the items in the buffer will notify the sleeping senders up to `w`. -/
def Sys.Reaches (s : Sys T) (w : Nat) : Prop :=
  s.chan.notFull.waiters.idxOf w < s.chan.buffer.length ∧
    ∃ takers : List Nat, takers.Nodup ∧ (∀ t ∈ takers, s.OnWay t) ∧
      s.chan.notFull.waiters.idxOf w < takers.length

/-- No sender sleeps on although what it waits for has come true, unless a notification that reaches
it is about to be issued. -/
def NoSenderLost (s : Sys T) : Prop := ∀ w ∈ s.chan.notFull.waiters, s.Ready w → s.Reaches w

/-- What the sleeping sender `w` waits for comes true when an item is removed: its own item is the
next one, or the removal leaves the buffer empty or a waiting receiver unclaimed. -/
def Sys.EnabledByTake (s : Sys T) (w : Nat) : Prop :=
  ∃ c phase, s.pc w = .putting c phase true ∧
    match phase with
    | .space => s.chan.buffer.length = 1 ∨
        (if s.chan.pendingHandoffs > 0 then s.chan.pendingHandoffs - 1
          else s.chan.pendingHandoffs) < s.chan.waitingReceivers
    | .handoff myTarget => myTarget ≤ s.chan.itemsConsumed + 1

/-- When thread `t` removes an item, every sender behind the longest waiting one that the removal
enables stands so near to the front that the other receivers on their way will notify it. -/
def Sys.TakeReaches (s : Sys T) (t : Nat) : Prop :=
  ∀ w ∈ s.chan.notFull.waiters.tail, s.EnabledByTake w →
    s.chan.notFull.waiters.tail.idxOf w + 1 < s.chan.buffer.length ∧
      ∃ takers : List Nat, takers.Nodup ∧ (∀ u ∈ takers, u ≠ t ∧ s.OnWay u) ∧
        s.chan.notFull.waiters.tail.idxOf w < takers.length

/-- The condition on a step: if it removes an item, no sender that it enables is out of reach. -/
def EveryTakeReaches (s : Sys T) (a : Act T) : Prop := ∀ t, s.popper a = some t → s.TakeReaches t

/-- A sender waiting in phase 1 and a receiver waiting in `get` are never both asleep with nothing
left to wake either: there is an item, and a notified receiver with an open handle on its way. -/
def NoStandoff (s : Sys T) : Prop :=
  ∀ w ∈ s.chan.notFull.waiters, (∃ c, s.pc w = .putting c .space true) →
    s.chan.notEmpty.waiters ≠ [] → s.chan.buffer ≠ [] ∧ 0 < s.gettersOnWay

/-! ## One move -/

section Moves

variable {s s' : Sys T}

/-- A waiter moves up when another one leaves the queue. -/
theorem idxOf_erase_le {w t : Nat} {l : List Nat} (h : w ≠ t) :
    (l.erase t).idxOf w ≤ l.idxOf w := by
  induction l with
  | nil => simp
  | cons a as ih =>
    by_cases hat : a = t
    · subst hat
      rw [List.erase_cons_head, List.idxOf_cons_ne _ (Ne.symm h)]
      omega
    · rw [List.erase_cons_tail (by simpa using hat)]
      by_cases haw : a = w
      · subst haw
        simp
      · rw [List.idxOf_cons_ne _ haw, List.idxOf_cons_ne _ haw]
        omega

theorem canPut_rendezvous {st : ChannelState T} (hcap : st.capacity = some 0) :
    st.canPut = .ok true ↔
      st.openReceiveChannels ≠ 0 ∧ (st.pendingHandoffs < st.waitingReceivers ∨ st.buffer = []) := by
  by_cases hr : st.openReceiveChannels = 0
  · simp [ChannelState.canPut, hr]
  · simp [ChannelState.canPut, hr, hcap]

/-- Between two states of a rendezvous, a phase that is ready in the later one was ready before if
items, claims and waiting receivers have changed in these directions only. -/
theorem PhaseReady.back {st st' : ChannelState T} {phase : Phase} (h : st'.PhaseReady phase)
    (hcap : st.capacity = some 0) (hcap' : st'.capacity = some 0)
    (hrecv : st.openReceiveChannels ≠ 0)
    (hclaim : st'.pendingHandoffs < st'.waitingReceivers →
      st.pendingHandoffs < st.waitingReceivers ∨ st.buffer = [])
    (hnil : st'.buffer = [] → st.buffer = []) (hitems : st'.itemsConsumed ≤ st.itemsConsumed) :
    st.PhaseReady phase := by
  cases phase with
  | space =>
    rcases ((canPut_rendezvous hcap').1 h).2 with hlt | hbuf
    · exact (canPut_rendezvous hcap).2 ⟨hrecv, hclaim hlt⟩
    · exact (canPut_rendezvous hcap).2 ⟨hrecv, Or.inr (hnil hbuf)⟩
  | handoff myTarget => exact Int.le_trans h hitems

theorem ChannelState.Waits.not_ready {st : ChannelState T} {phase : Phase} (h : st.Waits phase) :
    ¬st.PhaseReady phase := by
  cases phase with
  | space =>
    intro hready
    rw [PhaseReady, show st.canPut = .ok false from h] at hready
    cases hready
  | handoff myTarget => exact Int.not_le.2 h.1

/-- A sleeping sender's handle is open and a receiver is left, so only its phase can be ready. -/
theorem Inv.ready_iff (hi : Inv s) {w : Nat} (hw : w ∈ s.chan.notFull.waiters) :
    s.Ready w ↔ ∃ c phase, s.pc w = .putting c phase true ∧ s.chan.PhaseReady phase := by
  obtain ⟨c, phase, hpc, hopen⟩ := hi.full.asleep w hw
  have hrecv : s.chan.openReceiveChannels ≠ 0 := fun h0 =>
    List.ne_nil_of_mem hw (hi.nobody (Or.inr h0)).2
  constructor
  · rintro ⟨c', phase', hpc', hready⟩
    rw [hpc] at hpc'
    cases hpc'
    refine ⟨c, phase, hpc, ?_⟩
    rcases hready with hclosed | h0 | hphase
    · rw [Sys.senderClosed, hopen] at hclosed
      cases hclosed
    · exact absurd h0 hrecv
    · exact hphase
  · rintro ⟨c', phase', hpc', hphase⟩
    exact ⟨c', phase', hpc', Or.inr (Or.inr hphase)⟩

/-- What a move has to respect for `NoSenderLost` to survive it: it enables no sleeping sender, lets
none fall back in the queue, removes no item, and stops no receiver on its way to one. -/
theorem NoSenderLost.transport (hP : NoSenderLost s)
    (hready : ∀ w ∈ s'.chan.notFull.waiters, s'.Ready w →
      w ∈ s.chan.notFull.waiters ∧ s.Ready w ∧
        s'.chan.notFull.waiters.idxOf w ≤ s.chan.notFull.waiters.idxOf w)
    (hbuf : s.chan.buffer.length ≤ s'.chan.buffer.length)
    (hway : s.chan.buffer ≠ [] → ∀ t, s.OnWay t → s'.OnWay t) : NoSenderLost s' := by
  intro w hw hr
  obtain ⟨hmem, hr', hidx⟩ := hready w hw hr
  obtain ⟨hlt, takers, hnodup, htakers, hlen⟩ := hP w hmem hr'
  have hne : s.chan.buffer ≠ [] := by
    intro hnil
    simp [hnil] at hlt
  exact ⟨by omega, takers, hnodup, fun t ht => hway hne t (htakers t ht), by omega⟩

/-- A sender that sleeps in both states was ready before if its phase was. -/
theorem Inv.ready_back (hi : Inv s) (hi' : Inv s') {w : Nat} (hw : w ∈ s.chan.notFull.waiters)
    (hw' : w ∈ s'.chan.notFull.waiters) (hpc : s'.pc w = s.pc w)
    (hphase : ∀ phase, s'.chan.PhaseReady phase → s.chan.PhaseReady phase) (hr : s'.Ready w) :
    s.Ready w := by
  obtain ⟨c, phase, hw1, hready⟩ := (hi'.ready_iff hw').1 hr
  exact (hi.ready_iff hw).2 ⟨c, phase, hpc ▸ hw1, hphase phase hready⟩

/-- A receiver on its way stays so while it keeps its control point. -/
theorem OnWay.keep {u : Nat} (hu : s.OnWay u) (hpc : s'.pc u = s.pc u)
    (hopen : ∀ h, s.receiverClosed h = false → s'.receiverClosed h = false)
    (hq : u ∈ s'.chan.notEmpty.waiters → u ∈ s.chan.notEmpty.waiters) : s'.OnWay u := by
  obtain ⟨c, asleep, hu1, hu2, hu3⟩ := hu
  exact ⟨c, asleep, hpc.trans hu1, hopen c.handle hu2, fun hmem => hu3 (hq hmem)⟩

/-- A thread that is on its way is in a `get`. -/
theorem OnWay.ne_of_pc {t u : Nat} (hu : s.OnWay u) (ht : ∀ c asleep, s.pc t ≠ .getting c asleep) :
    u ≠ t := by
  rintro rfl
  obtain ⟨c, asleep, hpc, -⟩ := hu
  exact ht c asleep hpc

theorem Inv.ne_of_waits (hi : Inv s) {t w : Nat} (ht : (s.pc t).awake = true)
    (hw : w ∈ s.chan.notFull.waiters) : w ≠ t :=
  fun heq => hi.not_mem_full ht (heq ▸ hw)

/-- A move without an item loses no sender. -/
theorem Quiet.noSenderLost (hi : Inv s) (hP : NoSenderLost s) {t calls : Nat} {pc : Pc T}
    {evs : List (Event T)} (hq : Quiet s t pc calls evs) :
    NoSenderLost { s with
      chan := s.chan.enter t, pc := Function.update s.pc t pc
      calls := calls, log := s.log ++ evs } := by
  have hi' := move_inv hi (.quiet t pc calls evs hq)
  refine hP.transport (fun w hw hr => ?_) (Nat.le_refl _) (fun hne u hu => ?_)
  · have hwt := hi.ne_of_waits hq.awake hw
    exact ⟨hw, hi.ready_back hi' hw hw (Function.update_of_ne hwt _ _) (fun _ hp => hp) hr,
      Nat.le_refl _⟩
  · by_cases hut : u = t
    · -- The thread that leaves its block is no receiver that could have taken an item.
      subst hut
      obtain ⟨c, asleep, hpc, hopen, -⟩ := hu
      cases hq with
      | getRaised c' e hpc' hwhy =>
        rw [hpc'] at hpc
        cases hpc
        rcases hwhy with hclosed | hbuf
        · rw [hopen] at hclosed
          cases hclosed
        · exact absurd hbuf hne
      | _ => simp_all
    · exact OnWay.keep hu (Function.update_of_ne hut _ _) (fun _ h => h) (fun h => h)

theorem Pushes.ne_of_onWay {t calls : Nat} {item : T} {claim : Bool} {pc : Pc T}
    {evs : List (Event T)} (hp : Pushes s t item claim pc calls evs) {u : Nat} (hu : s.OnWay u) :
    u ≠ t := by
  refine OnWay.ne_of_pc hu fun c asleep hpc => ?_
  cases hp <;> simp_all

/-- A move that removes no item enables no sender that sleeps. -/
theorem move_keeps_noSenderLost (hi : InvOf (some 0) s) (hP : NoSenderLost s)
    (h : Move s s' none) : NoSenderLost s' := by
  have hi' := move_inv hi.inv h
  cases h with
  | tick d => exact hP
  | quiet t pc calls evs hq => exact hq.noSenderLost hi.inv hP
  -- The push makes one more handoff pending, so no sleeper becomes ready by it.
  | push t item claim pc calls evs hp hopen hroom =>
    refine hP.transport (fun w hw hr => ?_) (by simp [ChannelState.push]) (fun hne u hu => ?_)
    · have hwt := hi.inv.ne_of_waits hp.awake hw
      refine ⟨hw, hi.inv.ready_back hi' hw hw (Function.update_of_ne hwt _ _) ?_ hr, Nat.le_refl _⟩
      refine fun phase hphase => PhaseReady.back hphase hi.capacity_eq hi.capacity_eq hopen
        (fun hlt => ?_) (fun hnil => ?_) (Int.le_refl _)
      · left
        simp only [ChannelState.push, ChannelState.enter_pendingHandoffs,
          ChannelState.enter_waitingReceivers] at hlt
        split at hlt <;> omega
      · simp [ChannelState.push] at hnil
    · exact OnWay.keep hu (Function.update_of_ne (hp.ne_of_onWay hu) _ _) (fun _ h => h)
        Condition.mem_waiters_of_mem_notify
  | sleepSend t c phase hpc hopen hwait =>
    have hawake : (s.pc t).awake = true := by simp [hpc, Pc.awake]
    refine hP.transport (fun w hw hr => ?_) (Nat.le_refl _) (fun hne u hu => ?_)
    · by_cases hwt : w = t
      · -- The thread that falls asleep has just found its predicate false.
        subst hwt
        obtain ⟨c', phase', hpc', hphase⟩ := (hi'.ready_iff hw).1 hr
        have heq : Pc.putting c phase true = .putting c' phase' true :=
          (Function.update_self w _ s.pc).symm.trans hpc'
        cases heq
        exact absurd hphase hwait.not_ready
      · have hw' : w ∈ s.chan.notFull.waiters := by
          simpa [ChannelState.enter, hwt] using hw
        refine ⟨hw', hi.inv.ready_back hi' hw' hw (Function.update_of_ne hwt _ _) ?_ hr, ?_⟩
        · exact fun _ hp => hp
        · simp only [Condition.waiters_wait, ChannelState.enter_notFull, Condition.waiters_recheck,
            List.idxOf_append_of_mem hw']
          exact Nat.le_refl _
    · have hut : u ≠ t := OnWay.ne_of_pc hu (by simp [hpc])
      exact OnWay.keep hu (Function.update_of_ne hut _ _) (fun _ h => h) (fun h => h)
  | sleepReceive t c hpc hopen hsend hbuf =>
    have hawake : (s.pc t).awake = true := by simp [hpc, Pc.awake]
    refine hP.transport (fun w hw hr => ?_) (Nat.le_refl _) (fun hne => absurd hbuf hne)
    have hwt := hi.inv.ne_of_waits hawake hw
    have hrecv : s.chan.openReceiveChannels ≠ 0 := by
      have hcount : 0 < s.receivers.count false := count_pos_of_getD hopen
      have hopens := hi.inv.openReceive
      omega
    refine ⟨hw, hi.inv.ready_back hi' hw hw (Function.update_of_ne hwt _ _) ?_ hr, Nat.le_refl _⟩
    refine fun phase hphase => PhaseReady.back hphase hi.capacity_eq hi.capacity_eq hrecv
      (fun _ => Or.inr hbuf)
      (fun _ => hbuf) (Int.le_refl _)
  | wakeSend t c phase hpc =>
    have hnodup : s.chan.notFull.waiters.Nodup := (List.nodup_append.1 hi.inv.full.distinct).1
    refine hP.transport (fun w hw hr => ?_) (Nat.le_refl _) (fun hne u hu => ?_)
    · obtain ⟨hwt, hw'⟩ := (List.Nodup.mem_erase_iff hnodup).1 hw
      exact ⟨hw', hi.inv.ready_back hi' hw' hw (Function.update_of_ne hwt _ _) (fun _ hp => hp) hr,
        idxOf_erase_le hwt⟩
    · have hut : u ≠ t := OnWay.ne_of_pc hu (by simp [hpc])
      exact OnWay.keep hu (Function.update_of_ne hut _ _) (fun _ h => h) (fun h => h)
  -- One waiting receiver less: no sleeping sender becomes ready by that.
  | wakeReceive t c hpc =>
    refine hP.transport (fun w hw hr => ?_) (Nat.le_refl _) (fun hne u hu => ?_)
    · have hwt : w ≠ t := fun heq => (hi.inv.not_mem_full_of_getting hpc).1 (heq ▸ hw)
      have hrecv : s.chan.openReceiveChannels ≠ 0 := fun h0 =>
        List.ne_nil_of_mem hw (hi.inv.nobody (Or.inr h0)).2
      refine ⟨hw, hi.inv.ready_back hi' hw hw (Function.update_of_ne hwt _ _) ?_ hr, Nat.le_refl _⟩
      refine fun phase hphase => PhaseReady.back hphase hi.capacity_eq hi.capacity_eq hrecv
        (fun hlt => Or.inl ?_) (fun h => h) (Int.le_refl _)
      exact Int.lt_of_lt_of_le hlt (Int.sub_le_self _ (by decide))
    · by_cases hut : u = t
      · -- A receiver that was on its way has left the queue before, and stays a receiver.
        subst hut
        obtain ⟨c', asleep, hpc', hopen, hq⟩ := hu
        rw [hpc] at hpc'
        cases hpc'
        exact ⟨c, false, Function.update_self .., hopen, fun hmem =>
          hq (List.mem_of_mem_erase hmem)⟩
      · exact OnWay.keep hu (Function.update_of_ne hut _ _) (fun _ h => h) List.mem_of_mem_erase
  | cloneSend t h hpc hopen =>
    refine hP.transport (fun w hw hr => ?_) (Nat.le_refl _) (fun _ u hu => ?_)
    · exact ⟨hw, hi.inv.ready_back hi' hw hw rfl (fun _ hp => hp) hr, Nat.le_refl _⟩
    · exact OnWay.keep hu rfl (fun _ h => h) (fun h => h)
  | cloneReceive t h hpc hopen =>
    refine hP.transport (fun w hw hr => ?_) (Nat.le_refl _) (fun _ u hu => ?_)
    · have hrecv : s.chan.openReceiveChannels ≠ 0 := fun h0 =>
        List.ne_nil_of_mem hw (hi.inv.nobody (Or.inr h0)).2
      refine ⟨hw, hi.inv.ready_back hi' hw hw rfl ?_ hr, Nat.le_refl _⟩
      refine fun phase hphase => PhaseReady.back hphase hi.capacity_eq hi.capacity_eq hrecv Or.inl
        (fun h => h)
        (Int.le_refl _)
    · exact OnWay.keep hu rfl (fun _ h => getD_append_false h) (fun h => h)
  -- A close wakes everybody, and nobody is left asleep.
  | closeSend t h hpc hopen =>
    intro w hw
    simp at hw
  | closeReceive t h hpc hopen =>
    intro w hw
    simp at hw

/-- After a `_take` a phase is ready exactly when the removal enables it. -/
theorem phaseReady_take {st : ChannelState T} {item : T} {rest : List T} {t : Nat}
    (hcap : st.capacity = some 0) (hrecv : st.openReceiveChannels ≠ 0)
    (hbuf : st.buffer = item :: rest) (phase : Phase) :
    ((st.enter t).take rest).PhaseReady phase ↔
      match phase with
      | .space => st.buffer.length = 1 ∨
          (if st.pendingHandoffs > 0 then st.pendingHandoffs - 1 else st.pendingHandoffs) <
            st.waitingReceivers
      | .handoff myTarget => myTarget ≤ st.itemsConsumed + 1 := by
  cases phase with
  | space =>
    have hcan := @canPut_rendezvous _ ((st.enter t).take rest) hcap
    rw [ChannelState.PhaseReady, hcan, or_comm]
    simp [ChannelState.take, hcap, hrecv, hbuf]
  | handoff myTarget => simp [ChannelState.PhaseReady, ChannelState.take, hcap]

/-- The one move that can break `NoSenderLost`: it survives the removal of an item exactly when the
removal enables no sender out of reach. -/
theorem pull_noSenderLost (hi : InvOf (some 0) s) {t calls : Nat} {item : T} {rest : List T}
    {evs : List (Event T)} (hp : Pulls s t item calls evs) (hbuf : s.chan.buffer = item :: rest) :
    NoSenderLost { s with
      chan := (s.chan.enter t).take rest, pc := Function.update s.pc t .idle
      calls := calls, log := s.log ++ evs } ↔ s.TakeReaches t := by
  have hi' := move_inv hi.inv (.pull t item rest calls evs hp hbuf)
  generalize hs' : ({ s with
      chan := (s.chan.enter t).take rest, pc := Function.update s.pc t .idle
      calls := calls, log := s.log ++ evs } : Sys T) = s' at hi' ⊢
  -- the take has woken the first sender that slept
  have hwaiters : s'.chan.notFull.waiters = s.chan.notFull.waiters.tail := by
    simp [← hs', ChannelState.take]
  have hlen : s'.chan.buffer.length + 1 = s.chan.buffer.length := by
    simp [← hs', ChannelState.take, hbuf]
  -- a sleeper is ready now exactly if the take has made it so
  have hready : ∀ w ∈ s.chan.notFull.waiters.tail, s'.Ready w ↔ s.EnabledByTake w := by
    intro w hw
    have hmem := List.mem_of_mem_tail hw
    have hwt := hi.inv.ne_of_waits hp.awake hmem
    have hrecv : s.chan.openReceiveChannels ≠ 0 := fun h0 =>
      List.ne_nil_of_mem hmem (hi.inv.nobody (Or.inr h0)).2
    have hpc : s'.pc w = s.pc w := by simp [← hs', Function.update_of_ne hwt]
    rw [hi'.ready_iff (hwaiters ▸ hw), hpc, ← hs']
    simp only [phaseReady_take hi.capacity_eq hrecv hbuf, Sys.EnabledByTake]
  -- on its way is whoever was before, without the one that has taken
  have hway : ∀ u, s'.OnWay u ↔ u ≠ t ∧ s.OnWay u := by
    intro u
    by_cases hut : u = t
    · subst hut
      simp [Sys.OnWay, ← hs']
    · simp [Sys.OnWay, ← hs', hut, ChannelState.take, Sys.receiverClosed]
  unfold NoSenderLost Sys.TakeReaches
  rw [hwaiters]
  refine forall₂_congr fun w hw => ?_
  rw [hready w hw, Sys.Reaches, hwaiters]
  simp only [hway]
  rw [← hlen, Nat.add_lt_add_iff_right]

/-- One step keeps `NoSenderLost` exactly when it is taken under the condition. -/
theorem step_noSenderLost (hi : InvOf (some 0) s) (hP : NoSenderLost s) {a : Act T}
    (hstep : s.step a = some s') : NoSenderLost s' ↔ EveryTakeReaches s a := by
  have hmove := step_move hi.inv hstep
  unfold EveryTakeReaches
  cases hpop : s.popper a with
  | none =>
    rw [hpop] at hmove
    refine ⟨fun _ t ht => ?_, fun _ => move_keeps_noSenderLost hi hP hmove⟩
    cases ht
  | some t =>
    rw [hpop] at hmove
    cases hmove with
    | pull t item rest calls evs hp hbuf =>
      rw [pull_noSenderLost hi hp hbuf]
      refine ⟨fun h u hu => ?_, fun h => h t rfl⟩
      cases hu
      exact h

end Moves

/-! ## Runs -/

section Runs

variable {s : Sys T}

theorem noSenderLost_start (capacity : Option Nat) : NoSenderLost (Sys.start capacity : Sys T) := by
  intro w hw
  cases hw

/-- With no sender lost, a phase-1 sender and a receiver asleep together leave an item and a
notified receiver on its way to it: an empty buffer would let the sender go on, with no taker for
it. -/
theorem noStandoff_of_noSenderLost (h : (system T (some 0)).Reachable s) (hP : NoSenderLost s) :
    NoStandoff s := by
  intro w hw ⟨c, hpc⟩ hne
  have hi := invOf_reachable h
  have hbuf : s.chan.buffer ≠ [] := by
    intro hnil
    have hrecv : s.chan.openReceiveChannels ≠ 0 := fun h0 =>
      List.ne_nil_of_mem hw (hi.inv.nobody (Or.inr h0)).2
    have hready : s.chan.PhaseReady .space :=
      (canPut_rendezvous hi.capacity_eq).2 ⟨hrecv, Or.inr hnil⟩
    have hreach := hP w hw ((hi.inv.ready_iff hw).2 ⟨c, .space, hpc, hready⟩)
    have hlt := hreach.1
    rw [hnil] at hlt
    exact absurd hlt (Nat.not_lt_zero _)
  obtain ⟨u, hu⟩ := List.exists_mem_of_ne_nil _ hne
  have hcount := (noReceiverStranded h u hu).1
  have hpos := List.length_pos_of_ne_nil hbuf
  exact ⟨hbuf, by omega⟩

/-- In a run of a rendezvous channel no sender is ever lost exactly when every removal of an item is
made under the condition; in such a run no standoff is reached either. -/
theorem rendezvous_no_sender_lost {as : List (Act T)}
    (hrun : (system T (some 0)).exec (Sys.start (some 0)) as = some s) :
    ((system T (some 0)).Throughout NoSenderLost (Sys.start (some 0)) as ↔
        (system T (some 0)).Meets EveryTakeReaches (Sys.start (some 0)) as) ∧
      ((system T (some 0)).Meets EveryTakeReaches (Sys.start (some 0)) as →
        (system T (some 0)).Throughout NoStandoff (Sys.start (some 0)) as) := by
  have hiff : (system T (some 0)).Throughout NoSenderLost (Sys.start (some 0)) as ↔
      (system T (some 0)).Meets EveryTakeReaches (Sys.start (some 0)) as :=
    Lts.throughout_iff_meets (fun r a u (hi : InvOf (some 0) r) hstep => hi.step hstep)
      (fun r a u hi hP hstep => step_noSenderLost hi hP hstep) (invOf_start (some 0))
      (noSenderLost_start (some 0)) hrun
  refine ⟨hiff, fun hmeets => ?_⟩
  have hlost := Lts.throughout_iff_prefix.1 (hiff.2 hmeets)
  refine Lts.throughout_iff_prefix.2 fun pre r hpre hr => ?_
  exact noStandoff_of_noSenderLost ⟨_, pre, rfl, hr⟩ (hlost pre r hpre hr)

/-- With at most one sender asleep a removal notifies everybody it enables. -/
theorem everyTakeReaches_of_single {a : Act T} (h : s.chan.notFull.waiters.length ≤ 1) :
    EveryTakeReaches s a := by
  intro t _ w hw
  have hpos := List.length_pos_of_mem hw
  rw [List.length_tail] at hpos
  omega

/-- So does one behind which other receivers are on their way, as many as there are further senders
asleep, to items enough for all. -/
theorem everyTakeReaches_of_takers {a : Act T} {takers : List Nat} (hnodup : takers.Nodup)
    (hitems : s.chan.notFull.waiters.length ≤ s.chan.buffer.length)
    (hlen : s.chan.notFull.waiters.length ≤ takers.length + 1)
    (hway : ∀ u ∈ takers, s.popper a ≠ some u ∧ s.OnWay u) : EveryTakeReaches s a := by
  intro t ht w hw _
  have hidx := List.idxOf_lt_length_of_mem hw
  rw [List.length_tail] at hidx
  refine ⟨by omega, takers, hnodup, fun u hu => ⟨?_, (hway u hu).2⟩, by omega⟩
  rintro rfl
  exact (hway _ hu).1 ht

/-- Two senders meet two receivers that wait. The sender of the first item is the second in the
queue when that item is taken, and is notified by the receiver that comes for the other item. -/
def twoPairs : List (Act Nat) :=
  [.call 3 (.get 0 none), .run 3, .call 4 (.get 0 none), .run 4,
    .call 1 (.put 0 10 none), .run 1, .call 2 (.put 0 20 none), .run 2, .run 2, .run 1,
    .run 3, .run 3, .run 4, .run 4, .run 2, .run 2, .run 1, .run 1]

/-- Both removals meet the condition, the first one with two senders asleep, so no sender is lost on
the way. -/
theorem rendezvous_no_sender_lost_twoPairs :
    (system Nat (some 0)).Throughout NoSenderLost (Sys.start (some 0)) twoPairs := by
  have hrun : ((system Nat (some 0)).exec (Sys.start (some 0)) twoPairs).isSome := rfl
  obtain ⟨s, hs⟩ := Option.isSome_iff_exists.1 hrun
  have hmeets : (system Nat (some 0)).Meets (fun s a => s.chan.notFull.waiters.length ≤ 1 ∨
      s.chan.notFull.waiters.length = 2 ∧ s.chan.buffer.length = 2 ∧
        s.popper a ≠ some 4 ∧ s.OnWay 4)
      (Sys.start (some 0)) twoPairs := by decide
  refine (rendezvous_no_sender_lost hs).1.2 (hmeets.mono fun s a h => ?_)
  rcases h with hsingle | ⟨hlen, hitems, hpop, hway⟩
  · exact everyTakeReaches_of_single hsingle
  · refine everyTakeReaches_of_takers (List.nodup_singleton 4) (by omega)
      (by simp [hlen]) fun u hu => ?_
    rw [List.mem_singleton.1 hu]
    exact ⟨hpop, hway⟩

/-- The schedule of a lost wake-up: one sender waits for its item to be consumed, a second one for
space, a receiver takes the item and the first sender returns; the second sleeps on, and the
receiver's next `get` falls asleep as well. -/
def standoff : List (Act Nat) :=
  [.call 1 (.put 0 10 none), .run 1, .run 1, .call 2 (.put 0 20 none), .run 2,
    .call 3 (.get 0 none), .run 3, .run 1, .run 1, .call 3 (.get 0 none), .run 3]

/-- The buffer is empty, a sender and a receiver sleep un-notified, and no thread can take a step of
its own: whatever is to wake them has to come from a new call. -/
theorem rendezvous_standoff :
    ∃ s : Sys Nat, (system Nat (some 0)).Reachable s ∧ s.chan.buffer = [] ∧
      2 ∈ s.chan.notFull.waiters ∧ s.Ready 2 ∧ 3 ∈ s.chan.notEmpty.waiters ∧
      (∀ t, s.step (.run t) = none) ∧ ¬NoSenderLost s ∧ ¬NoStandoff s := by
  have hreach := Lts.Reachable.of_isSome (M := system Nat (some 0)) rfl standoff rfl
  refine ⟨_, hreach, rfl, by decide, ⟨⟨1, 0, 20, none⟩, .space, rfl, Or.inr (Or.inr rfl)⟩,
    by decide, ?_, ?_, ?_⟩
  · intro t
    rcases t with _ | _ | _ | _ | t <;> rfl
  · intro h
    exact absurd (h 2 (by decide) ⟨⟨1, 0, 20, none⟩, .space, rfl, Or.inr (Or.inr rfl)⟩).1
      (by decide)
  · intro h
    exact (h 2 (by decide) ⟨⟨1, 0, 20, none⟩, rfl⟩ (by decide)).1 rfl

end Runs

end LocalPost.Threadtools.Channel
