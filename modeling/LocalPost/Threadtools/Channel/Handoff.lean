import LocalPost.Threadtools.Channel.Delivery

/-!
# A rendezvous `put` as a hand-off

`put` on a channel of capacity zero is to return only when a receiver has removed the very item it
appended, and to raise otherwise. `HandedOver` finds the removal of an item by position: the item of
append number `k` is handed over when there is a removal number `k`.

The second phase of `put` keeps to this except in one place: when the last receive handle is closed
and the item is still in the buffer, it returns instead of raising `ClosedResourceError`
(`returns_without_receiver`). `put_hands_over_iff` says that this is the only exception, over every
run of every number of threads.
-/

set_option autoImplicit false

namespace LocalPost.Threadtools.Channel

open LocalPost.Core

universe u

variable {T : Type u}

/-- The item appended by call `c` has been removed: append and removal have the same position. -/
def HandedOver (log : List (Event T)) (c : Nat) (item : T) : Prop :=
  ∃ (k r : Nat), (appendsOf log)[k]? = some (c, item) ∧ (takesOf log)[k]? = some (r, item)

/-- Whenever a `put` returned, its item had been handed over. -/
def ReturnsHandOver (log : List (Event T)) : Prop :=
  ∀ l r c h item timeout, log = l ++ .returned c :: r →
    Event.began c (.put h item timeout) ∈ l → HandedOver l c item

/-- A rendezvous channel as its callers are to see it: a `put` has returned only after its hand-off,
and a `put` that finds a side closed or its time over can take its next step. -/
structure Rendezvous (s : Sys T) : Prop where
  returns : ReturnsHandOver s.log
  able : ∀ t c phase asleep, s.pc t = .putting c phase asleep →
    s.chan.openReceiveChannels = 0 ∨ s.senderClosed c.handle = true ∨
      expired s.now c.deadline = true → (s.run t).isSome

/-- What one block of the `put` call `c`, from `s` to `s'`, is to do. -/
structure Promised (s s' : Sys T) (c : PutCall T) (phase : Phase) : Prop where
  returned : s'.log = s.log ++ [.returned c.call] → HandedOver s.log c.call c.item
  noReceivers : s.chan.openReceiveChannels = 0 → ¬HandedOver s.log c.call c.item →
    ∃ e, s'.log = s.log ++ [.raised c.call e] ∧ e.kind = .closedResource
  closed : s.senderClosed c.handle = true → ¬HandedOver s.log c.call c.item →
    ∃ e, s'.log = s.log ++ [.raised c.call e] ∧ e.kind = .closedResource
  timedOut : s.senderClosed c.handle = false → s.chan.Waits phase →
    expired s.now c.deadline = true → s'.log = s.log ++ [.raised c.call .timeout]

/-- The action does what a block of `put` is to do, if it runs one. -/
def EndsAsPromised (s : Sys T) (a : Act T) : Prop :=
  ∀ t c phase s', a = .run t → s.pc t = .putting c phase false → s.run t = some s' →
    Promised s s' c phase

/-- When the action is the second-phase check of a `put` through an open handle and no receiver is
left, the item has been handed over by then. -/
def ReceiverLeft (s : Sys T) (a : Act T) : Prop :=
  ∀ t c myTarget, a = .run t → s.pc t = .putting c (.handoff myTarget) false →
    s.senderClosed c.handle = false → s.chan.openReceiveChannels = 0 →
      HandedOver s.log c.call c.item

/-! ## The item of a waiting `put` -/

section Items

variable {s s' : Sys T}

theorem HandedOver.mem_delivered {log : List (Event T)} {c : Nat} {item : T}
    (h : HandedOver log c item) : (c, item) ∈ deliveredOf log := by
  obtain ⟨k, r, happ, htake⟩ := h
  have hlt : k < (takesOf log).length := (List.getElem?_eq_some_iff.1 htake).1
  refine List.mem_of_getElem? (i := k) ?_
  rw [deliveredOf, List.getElem?_take_of_lt hlt]
  exact happ

/-- The removal at a position took the item appended at that position. -/
theorem Fifo.handedOver (hf : Fifo s) {k c : Nat} {item : T}
    (happ : (appendsOf s.log)[k]? = some (c, item)) (hk : k < (takesOf s.log).length) :
    HandedOver s.log c item := by
  obtain ⟨⟨r, taken⟩, htaken⟩ : ∃ p, (takesOf s.log)[k] = p := ⟨_, rfl⟩
  have htake : (takesOf s.log)[k]? = some (r, taken) := by
    rw [List.getElem?_eq_getElem hk, htaken]
  have hsame := congrArg (fun l => l[k]?) hf.items
  rw [List.getElem?_append_left (by simpa using hk), List.getElem?_map, List.getElem?_map, htake,
    happ] at hsame
  have hitem : taken = item := by simpa using hsame
  exact ⟨k, r, happ, hitem ▸ htake⟩

/-- The item of a `put` in phase 2 is handed over once `items_consumed` has reached its target. -/
theorem handedOver_iff (hreach : (system T (some 0)).Reachable s) {t : Nat} {c : PutCall T}
    {myTarget : Int} {asleep : Bool} (hpc : s.pc t = .putting c (.handoff myTarget) asleep) :
    HandedOver s.log c.call c.item ↔ s.chan.itemsConsumed ≥ myTarget := by
  have hf := fifo_reachable hreach
  obtain ⟨k, hk, htarget⟩ := hf.targets t c myTarget asleep hpc
  have hconsumed := hf.consumed (invOf_reachable hreach).capacity_eq
  obtain ⟨-, timeout, hist⟩ := (stories_reachable hreach).of_handoff hpc
  have honce : (appendsOf s.log).filter (fun p => p.1 = c.call) = [(c.call, c.item)] := by
    rw [← appendsOf_history, hist]
    rfl
  constructor
  · intro h
    -- Otherwise the one append of the call is pending, and the item of `h` is a second one.
    refine Decidable.byContradiction fun hlt => ?_
    have hpending : (pendingOf s.log).filter (fun p => p.1 = c.call) = [(c.call, c.item)] :=
      filter_drop_of_le honce (by simp) hk (by omega)
    have hdelivered : (c.call, c.item) ∈ (deliveredOf s.log).filter fun p => p.1 = c.call :=
      List.mem_filter.2 ⟨h.mem_delivered, by simp⟩
    have hsplit : ((deliveredOf s.log).filter fun p => p.1 = c.call) ++
        (pendingOf s.log).filter (fun p => p.1 = c.call) = [(c.call, c.item)] := by
      rw [← honce, ← List.filter_append, deliveredOf, pendingOf, List.take_append_drop]
    rw [hpending] at hsplit
    have hnil := List.append_left_eq_self.1 hsplit
    rw [hnil] at hdelivered
    cases hdelivered
  · intro h
    exact hf.handedOver hk (by omega)

end Items

/-! ## One block of `put` -/

section Blocks

variable {s : Sys T}

/-- The event of the phase-2 block. -/
theorem runPutHandoff_log (t : Nat) (c : PutCall T) (myTarget : Int) :
    (s.runPutHandoff t c myTarget).log = s.log ++
      if s.senderClosed c.handle then [.raised c.call .sendClosed]
      else if s.chan.itemsConsumed ≥ myTarget ∨ s.chan.openReceiveChannels = 0 then
        [.returned c.call]
      else if expired s.now c.deadline then [.raised c.call .timeout]
      else [] := by
  unfold Sys.runPutHandoff ChannelState.putHandoff
  by_cases hclosed : s.senderClosed c.handle = true
  · simp [hclosed, Sys.goto]
  · by_cases hdone : s.chan.itemsConsumed ≥ myTarget
    · simp [hclosed, hdone, Sys.goto]
    · by_cases hopen : s.chan.openReceiveChannels = 0
      · simp [hclosed, hopen, Sys.goto]
      · by_cases hlate : expired s.now c.deadline = true
        · simp [hclosed, hdone, hopen, hlate, Sys.goto]
        · simp [hclosed, hdone, hopen, hlate, Sys.goto]

/-- The event of the phase-1 block of a rendezvous. -/
theorem runPutSpace_log (hcap : s.chan.capacity = some 0) (t : Nat) (c : PutCall T) :
    (s.runPutSpace t c).log = s.log ++
      if s.senderClosed c.handle then [.raised c.call .sendClosed]
      else match s.chan.canPut with
        | .error e => [.raised c.call e]
        | .ok true => [.appended c.call c.item]
        | .ok false => if expired s.now c.deadline then [.raised c.call .timeout] else [] := by
  unfold Sys.runPutSpace ChannelState.putSpace
  by_cases hclosed : s.senderClosed c.handle = true
  · simp [hclosed, Sys.goto]
  · simp only [hclosed, Bool.false_eq_true, if_false, ChannelState.enter_canPut]
    cases hcan : s.chan.canPut with
    | error e => simp [Sys.goto]
    | ok b =>
      cases b with
      | true => simp [hcap, Sys.goto]
      | false => by_cases hlate : expired s.now c.deadline = true <;> simp [hlate, Sys.goto]

/-- The phase-2 block keeps the promise exactly when it does not find the last receiver gone. -/
theorem handoff_promised_iff (hreach : (system T (some 0)).Reachable s) {t : Nat} {c : PutCall T}
    {myTarget : Int} (hpc : s.pc t = .putting c (.handoff myTarget) false) :
    Promised s (s.runPutHandoff t c myTarget) c (.handoff myTarget) ↔
      (s.senderClosed c.handle = false → s.chan.openReceiveChannels = 0 →
        HandedOver s.log c.call c.item) := by
  have hdone := handedOver_iff hreach hpc
  have hlog := runPutHandoff_log (s := s) t c myTarget
  constructor
  -- no receiver is left and the handle is open: this is where the code returns
  · intro hp hclosed hopen
    refine hp.returned ?_
    rw [hlog]
    simp [hclosed, hopen]
  · intro hleft
    -- the parts of the promise in turn: a return, two closed ends, a timeout
    refine ⟨fun hret => ?_, fun hopen hnot => ?_, fun hclosed _ => ?_,
      fun hclosed hwait hlate => ?_⟩
    · -- A return is a reached target or a receiver that is gone.
      rw [hlog, List.append_cancel_left_eq] at hret
      by_cases hclosed : s.senderClosed c.handle = true
      · simp [hclosed] at hret
      · by_cases hreturns : s.chan.itemsConsumed ≥ myTarget ∨ s.chan.openReceiveChannels = 0
        · rcases hreturns with hreached | hopen
          · exact hdone.2 hreached
          · exact hleft (by simpa using hclosed) hopen
        · by_cases hlate : expired s.now c.deadline = true <;>
            simp [hclosed, hreturns, hlate] at hret
    · -- With an open handle the item would have been handed over.
      have hclosed : s.senderClosed c.handle = true := by
        by_contra hne
        exact hnot (hleft (by simpa using hne) hopen)
      exact ⟨.sendClosed, by rw [hlog, if_pos hclosed], rfl⟩
    · exact ⟨.sendClosed, by rw [hlog, if_pos hclosed], rfl⟩
    · obtain ⟨hlt, hopen⟩ := hwait
      rw [hlog, if_neg (by simp [hclosed]), if_neg (by simp [hopen]; omega), if_pos hlate]

/-- The phase-1 block keeps the promise in every state. -/
theorem space_promised (hreach : (system T (some 0)).Reachable s) (t : Nat) (c : PutCall T) :
    Promised s (s.runPutSpace t c) c .space := by
  have hlog := runPutSpace_log (invOf_reachable hreach).capacity_eq t c
  refine ⟨fun hret => ?_, fun hopen _ => ?_, fun hclosed _ => ?_, fun hclosed hwait hlate => ?_⟩
  · exfalso
    rw [hlog, List.append_cancel_left_eq] at hret
    by_cases hclosed : s.senderClosed c.handle = true
    · simp [hclosed] at hret
    · rw [if_neg hclosed] at hret
      cases hcan : s.chan.canPut with
      | error e => simp [hcan] at hret
      | ok b =>
        cases b with
        | true => simp [hcan] at hret
        | false => by_cases hlate : expired s.now c.deadline = true <;> simp [hcan, hlate] at hret
  · have hcan : s.chan.canPut = .error .noMoreReceivers := by simp [ChannelState.canPut, hopen]
    by_cases hclosed : s.senderClosed c.handle = true
    · exact ⟨.sendClosed, by rw [hlog, if_pos hclosed], rfl⟩
    · exact ⟨.noMoreReceivers, by rw [hlog, if_neg hclosed, hcan], rfl⟩
  · exact ⟨.sendClosed, by rw [hlog, if_pos hclosed], rfl⟩
  · have hcan : s.chan.canPut = .ok false := hwait
    rw [hlog, if_neg (by simp [hclosed]), hcan, if_pos hlate]

/-- A block keeps the promise exactly when it is taken under the condition. -/
theorem endsAsPromised_iff (hreach : (system T (some 0)).Reachable s) (a : Act T) :
    EndsAsPromised s a ↔ ReceiverLeft s a := by
  constructor
  · intro h t c myTarget ha hpc
    have hrun : s.run t = some (s.runPutHandoff t c myTarget) := by simp [Sys.run, hpc]
    exact (handoff_promised_iff hreach hpc).1 (h t c _ _ ha hpc hrun)
  · intro h t c phase s' ha hpc hrun
    cases phase with
    | space =>
      have hs' : s.runPutSpace t c = s' := by simpa [Sys.run, hpc] using hrun
      exact hs' ▸ space_promised hreach t c
    | handoff myTarget =>
      have hs' : s.runPutHandoff t c myTarget = s' := by simpa [Sys.run, hpc] using hrun
      exact hs' ▸ (handoff_promised_iff hreach hpc).2 (h t c myTarget ha hpc)

end Blocks

/-! ## Runs -/

section Runs

variable {s s' : Sys T}

/-- A thread inside a call moves only by running. -/
theorem pc_of_step {a : Act T} (hstep : s.step a = some s') {t : Nat} (hpc : s.pc t ≠ .idle)
    (ha : a ≠ .run t) : s'.pc t = s.pc t := by
  cases a with
  | tick d =>
    cases hstep
    rfl
  | call u op =>
    cases hu : s.pc u with
    | idle =>
      have hne : t ≠ u := by
        rintro rfl
        exact hpc hu
      simp only [Sys.step, hu, Sys.begin] at hstep
      repeat' split at hstep
      all_goals
        cases hstep <;> exact Function.update_of_ne hne _ _
    | putting c phase asleep => simp [Sys.step, hu] at hstep
    | getting c asleep => simp [Sys.step, hu] at hstep
  | run u =>
    have hne : t ≠ u := fun h => ha (h ▸ rfl)
    simp only [Sys.step, Sys.run, Sys.runPutSpace, Sys.runPutHandoff, Sys.runGet] at hstep
    repeat' split at hstep
    all_goals
      cases hstep <;> exact Function.update_of_ne hne _ _

/-- Events without a return say nothing new. -/
theorem ReturnsHandOver.append {log evs : List (Event T)} (h : ReturnsHandOver log)
    (hevs : ∀ c, Event.returned c ∉ evs) : ReturnsHandOver (log ++ evs) := by
  intro l r c hd item timeout heq hbegan
  rcases Core.split_grown heq with ⟨suf, hlog⟩ | ⟨pre, -, hnew⟩
  · exact h l suf c hd item timeout hlog hbegan
  · exact absurd (by rw [hnew]; simp) (hevs c)

/-- Only the call that returns now has to be looked at. -/
theorem ReturnsHandOver.ret {log : List (Event T)} (h : ReturnsHandOver log) {k : Nat}
    (hnew : ∀ hd item timeout, Event.began k (.put hd item timeout) ∈ log →
      HandedOver log k item) : ReturnsHandOver (log ++ [.returned k]) := by
  intro l r c hd item timeout heq hbegan
  rcases Core.split_grown heq with ⟨suf, hlog⟩ | ⟨pre, hl, hlast⟩
  · exact h l suf c hd item timeout hlog hbegan
  · cases pre with
    | nil =>
      rw [List.nil_append, List.cons.injEq, Event.returned.injEq] at hlast
      obtain ⟨rfl, -⟩ := hlast
      rw [List.append_nil] at hl
      subst hl
      exact hnew hd item timeout hbegan
    | cons e pre => simp at hlast

/-- A new call that is not a `put` and returns in the same step. -/
theorem ReturnsHandOver.whole (h : ReturnsHandOver s.log) (hs : Stories (some 0) s) (op : Op T)
    (evs : List (Event T)) (hop : ∀ hd item timeout, op ≠ .put hd item timeout)
    (hevs : ∀ c op', Event.began c op' ∉ evs) (hret : ∀ c, Event.returned c ∉ evs) :
    ReturnsHandOver (s.log ++ .began s.calls op :: (evs ++ [.returned s.calls])) := by
  have hgrown : ReturnsHandOver (s.log ++ .began s.calls op :: evs) := by
    refine h.append fun c hmem => ?_
    rcases List.mem_cons.1 hmem with heq | hmem
    · cases heq
    · exact hret c hmem
  rw [← List.cons_append, ← List.append_assoc]
  refine hgrown.ret fun hd item timeout hbegan => ?_
  rcases List.mem_append.1 hbegan with hold | hnew
  · exact absurd (hs.fresh _ hold) (Nat.lt_irrefl _)
  · rcases List.mem_cons.1 hnew with heq | hmem
    · cases heq
      exact absurd rfl (hop hd item timeout)
    · exact absurd hmem (hevs _ _)

/-- A return in a move that touches no item comes after the hand-over. -/
theorem Quiet.returnsHandOver (hreach : (system T (some 0)).Reachable s) (h : ReturnsHandOver s.log)
    {t calls : Nat} {pc : Pc T} {evs : List (Event T)} (hq : Quiet s t pc calls evs)
    (hleft : ∀ c myTarget, s.pc t = .putting c (.handoff myTarget) false → pc = .idle →
      s.senderClosed c.handle = false → s.chan.openReceiveChannels = 0 →
        HandedOver s.log c.call c.item) :
    ReturnsHandOver (s.log ++ evs) := by
  have hs := stories_reachable hreach
  cases hq with
  | closedAgain hd hpc => exact h.whole hs (.closeSend hd) [] (by simp) (by simp) (by simp)
  | closedReceiveAgain hd hpc =>
    exact h.whole hs (.closeReceive hd) [] (by simp) (by simp) (by simp)
  | handoffReturned c myTarget hpc hclosed hwhy =>
    refine h.ret fun hd item timeout hbegan => ?_
    -- The call has begun once, with the item it carries.
    obtain ⟨-, timeout', hist⟩ := hs.of_handoff hpc
    have hmem : Event.began c.call (.put hd item timeout) ∈ history s.log c.call :=
      mem_history.2 ⟨hbegan, rfl⟩
    rw [hist] at hmem
    have hitem : item = c.item := by
      have hargs : hd = c.handle ∧ item = c.item ∧ timeout = timeout' := by simpa using hmem
      exact hargs.2.1
    rw [hitem]
    rcases hwhy with hreached | hopen
    · exact (handedOver_iff hreach hpc).2 hreached
    · exact hleft c myTarget hpc rfl hclosed hopen
  | _ => exact h.append (by simp)

/-- A move that appends returns from no `put`. -/
theorem Pushes.returnsHandOver (hreach : (system T (some 0)).Reachable s)
    (h : ReturnsHandOver s.log) {t calls : Nat} {item : T} {claim : Bool} {pc : Pc T}
    {evs : List (Event T)} (hp : Pushes s t item claim pc calls evs) :
    ReturnsHandOver (s.log ++ evs) := by
  cases hp with
  | nowait hd _ hpc hclosed =>
    exact h.whole (stories_reachable hreach) (.putNowait hd item) [.appended s.calls item] (by simp)
      (by simp) (by simp)
  | put c hpc hclosed hne => exact absurd (invOf_reachable hreach).capacity_eq hne
  | rendezvous c hpc hclosed hzero => exact h.append (by simp)

/-- A move that takes an item keeps every return behind its hand-over. -/
theorem Pulls.returnsHandOver (hreach : (system T (some 0)).Reachable s)
    (h : ReturnsHandOver s.log) {t calls : Nat} {item : T} {evs : List (Event T)}
    (hp : Pulls s t item calls evs) : ReturnsHandOver (s.log ++ evs) := by
  have hs := stories_reachable hreach
  cases hp with
  | nowait hd _ hpc hclosed =>
    exact h.whole hs (.getNowait hd) [.took s.calls item] (by simp) (by simp) (by simp)
  | get c _ hpc hclosed =>
    have hgrown : ReturnsHandOver (s.log ++ [.took c.call item]) := h.append (by simp)
    rw [show s.log ++ [.took c.call item, .returned c.call] =
      s.log ++ [.took c.call item] ++ [.returned c.call] by simp]
    refine hgrown.ret fun hd item' timeout hbegan => ?_
    -- The call that returns is a `get`.
    obtain ⟨timeout', hist⟩ := hs.of_getting hpc
    have hold : Event.began c.call (.put hd item' timeout) ∈ s.log := by simpa using hbegan
    have hmem : Event.began c.call (.put hd item' timeout) ∈ history s.log c.call :=
      mem_history.2 ⟨hold, rfl⟩
    rw [hist] at hmem
    simp at hmem

/-- A step under the condition keeps the returns right. -/
theorem step_returnsHandOver (hreach : (system T (some 0)).Reachable s) (h : ReturnsHandOver s.log)
    {a : Act T} (hleft : ReceiverLeft s a) (hstep : s.step a = some s') :
    ReturnsHandOver s'.log := by
  have hs := stories_reachable hreach
  -- A `put` that is through phase 2 has taken this step itself.
  have hran : ∀ t c myTarget, s.pc t = .putting c (.handoff myTarget) false → s'.pc t = .idle →
      a = .run t := by
    intro t c myTarget hpc hidle
    by_contra hne
    have hsame := pc_of_step hstep (by simp [hpc]) hne
    rw [hidle, hpc] at hsame
    cases hsame
  have hmove := step_move (invOf_reachable hreach).inv hstep
  generalize s.popper a = b at hmove
  cases hmove with
  | quiet t pc calls evs hq =>
    refine hq.returnsHandOver hreach h fun c myTarget hpc hidle hclosed hopen => ?_
    refine hleft t c myTarget (hran t c myTarget hpc ?_) hpc hclosed hopen
    rw [← hidle]
    exact Function.update_self ..
  | push t item claim pc calls evs hp hopen hroom => exact hp.returnsHandOver hreach h
  | pull t item rest calls evs hp hbuf => exact hp.returnsHandOver hreach h
  | cloneSend t hd hpc hopen => exact h.whole hs (.cloneSend hd) [] (by simp) (by simp) (by simp)
  | cloneReceive t hd hpc hopen =>
    exact h.whole hs (.cloneReceive hd) [] (by simp) (by simp) (by simp)
  | closeSend t hd hpc hopen => exact h.whole hs (.closeSend hd) [] (by simp) (by simp) (by simp)
  | closeReceive t hd hpc hopen =>
    exact h.whole hs (.closeReceive hd) [] (by simp) (by simp) (by simp)
  | _ => exact h

/-- A `put` that finds a side closed or its time over is not asleep in the queue, so it can go
on. -/
theorem Inv.able (hi : Inv s) {t : Nat} {c : PutCall T} {phase : Phase} {asleep : Bool}
    (hpc : s.pc t = .putting c phase asleep)
    (hwhy : s.chan.openReceiveChannels = 0 ∨ s.senderClosed c.handle = true ∨
      expired s.now c.deadline = true) : (s.run t).isSome := by
  cases asleep with
  | false => cases phase <;> simp [Sys.run, hpc]
  | true =>
    have hgo : t ∉ s.chan.notFull.waiters ∨ expired s.now c.deadline = true := by
      rcases hwhy with hopen | hclosed | hlate
      · left
        rw [(hi.nobody (Or.inr hopen)).2]
        exact List.not_mem_nil
      · left
        intro hmem
        obtain ⟨c', phase', hpc', hopen⟩ := hi.full.asleep t hmem
        cases hpc.symm.trans hpc'
        rw [Sys.senderClosed, hopen] at hclosed
        cases hclosed
      · exact Or.inr hlate
    simp [Sys.run, hpc, hgo]

theorem rendezvous_start : Rendezvous (Sys.start (some 0) : Sys T) where
  returns l r c h item timeout heq := by cases l <;> cases heq
  able t c phase asleep h := by cases h

/-- In every run of a rendezvous channel: a `put` returns only when its item has been removed, and
raises as documented when a side is closed or its time is over, exactly when no `put` checks its
hand-off with the last receive handle closed and its item still in the buffer. -/
theorem put_hands_over_iff (as : List (Act T)) :
    ((system T (some 0)).Throughout Rendezvous (Sys.start (some 0)) as ∧
        (system T (some 0)).Meets EndsAsPromised (Sys.start (some 0)) as) ↔
      (system T (some 0)).Meets ReceiverLeft (Sys.start (some 0)) as := by
  have hinit : (system T (some 0)).Reachable (Sys.start (some 0)) := .of_init rfl
  have hkeeps : ∀ (r : Sys T) (a : Act T) (u : Sys T), (system T (some 0)).Reachable r →
      (system T (some 0)).step r a = some u → (system T (some 0)).Reachable u :=
    fun r a u hr hu => hr.step hu
  have hsteps : (system T (some 0)).Meets EndsAsPromised (Sys.start (some 0)) as ↔
      (system T (some 0)).Meets ReceiverLeft (Sys.start (some 0)) as :=
    Lts.meets_congr hkeeps (fun r a hr => endsAsPromised_iff hr a) hinit
  constructor
  · rintro ⟨-, hends⟩
    exact hsteps.1 hends
  · intro hmeets
    refine ⟨?_, hsteps.2 hmeets⟩
    refine Lts.throughout_of_meets hkeeps (fun r a u hr hP hleft hu => ?_) hinit rendezvous_start
      hmeets
    have hi := (invOf_reachable (hr.step hu)).inv
    exact ⟨step_returnsHandOver hr hP.returns hleft hu, fun t c phase asleep hpc => hi.able hpc⟩

/-- A `put` appends its item, and the only receiver closes before taking it. -/
def receiverCloses : List (Act Nat) :=
  [.call 1 (.put 0 10 none), .run 1, .call 2 (.closeReceive 0), .run 1]

/-- The `put` returns normally. Nobody has received its item, and nobody is left to do so. -/
theorem returns_without_receiver :
    ∃ s : Sys Nat, (system Nat (some 0)).Reachable s ∧ Event.returned 0 ∈ s.log ∧
      s.chan.openReceiveChannels = 0 ∧ takesOf s.log = [] ∧ s.chan.buffer = [10] ∧
      ¬ReturnsHandOver s.log := by
  have hreach := Lts.Reachable.of_isSome (M := system Nat (some 0)) rfl receiverCloses rfl
  refine ⟨_, hreach, by decide, rfl, rfl, rfl, fun h => ?_⟩
  obtain ⟨k, r, -, htake⟩ := h [.began 0 (.put 0 10 none), .appended 0 10,
    .began 1 (.closeReceive 0), .returned 1] [] 0 0 10 none rfl (by decide)
  cases htake

end Runs

end LocalPost.Threadtools.Channel
