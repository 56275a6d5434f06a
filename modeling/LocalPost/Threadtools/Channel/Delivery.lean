import LocalPost.Core.ListEntries
import LocalPost.Threadtools.Channel.History

/-!
# Delivery: first in, first out, exactly once

The items taken so far, followed by the buffer, are the items appended so far (`Fifo.items`). In a
rendezvous `items_consumed` counts the removals and the phase-2 target of a `put` is the position of
its own append plus one, so a `put` that times out in phase 2 has its item still in the buffer. A
`put` whose own handle is closed in phase 2 raises before it looks at `items_consumed`: its item may
have been received already (`handoff_raises_after_delivery`).
-/

set_option autoImplicit false

namespace LocalPost.Threadtools.Channel

open LocalPost.Core

universe u

variable {T : Type u}

/-- The buffer holds the appended items that have not been taken; in a rendezvous the counters agree
with the history. -/
structure Fifo (s : Sys T) : Prop where
  items : (takesOf s.log).map Prod.snd ++ s.chan.buffer = (appendsOf s.log).map Prod.snd
  consumed : s.chan.capacity = some 0 → s.chan.itemsConsumed = (takesOf s.log).length
  targets : ∀ t c myTarget asleep, s.pc t = .putting c (.handoff myTarget) asleep →
    ∃ k : Nat, (appendsOf s.log)[k]? = some (c.call, c.item) ∧ myTarget = k + 1

section Fifo

variable {s s' : Sys T}

theorem Quiet.no_items {t calls : Nat} {pc : Pc T} {evs : List (Event T)}
    (hq : Quiet s t pc calls evs) : appendsOf evs = [] ∧ takesOf evs = [] := by
  cases hq <;> exact ⟨rfl, rfl⟩

theorem Pushes.one_append {t calls : Nat} {item : T} {claim : Bool} {pc : Pc T}
    {evs : List (Event T)} (hp : Pushes s t item claim pc calls evs) :
    ∃ k, appendsOf evs = [(k, item)] ∧ takesOf evs = [] := by
  cases hp with
  | nowait => exact ⟨_, rfl, rfl⟩
  | put => exact ⟨_, rfl, rfl⟩
  | rendezvous => exact ⟨_, rfl, rfl⟩

theorem Pulls.one_take {t calls : Nat} {item : T} {evs : List (Event T)}
    (hp : Pulls s t item calls evs) : ∃ k, takesOf evs = [(k, item)] ∧ appendsOf evs = [] := by
  cases hp with
  | nowait => exact ⟨_, rfl, rfl⟩
  | get => exact ⟨_, rfl, rfl⟩

/-- The number of appends is the number of removals plus the length of the buffer. -/
theorem Fifo.length_eq (hf : Fifo s) :
    (appendsOf s.log).length = (takesOf s.log).length + s.chan.buffer.length := by
  have hlen := congrArg List.length hf.items
  simpa using hlen.symm

/-- Targets stay valid when the log grows and one thread moves. -/
theorem Fifo.targets_update (hf : Fifo s) {t : Nat} {p : Pc T} {log : List (Event T)}
    (hp : ∀ c myTarget asleep, p = .putting c (.handoff myTarget) asleep →
      ∃ k : Nat, (appendsOf (s.log ++ log))[k]? = some (c.call, c.item) ∧ myTarget = k + 1) :
    ∀ u c myTarget asleep,
      Function.update s.pc t p u = .putting c (.handoff myTarget) asleep →
        ∃ k : Nat, (appendsOf (s.log ++ log))[k]? = some (c.call, c.item) ∧ myTarget = k + 1 := by
  intro u c myTarget asleep hu
  by_cases hut : u = t
  · subst hut
    rw [Function.update_self] at hu
    exact hp c myTarget asleep hu
  · rw [Function.update_of_ne hut] at hu
    obtain ⟨k, hk, htarget⟩ := hf.targets u c myTarget asleep hu
    refine ⟨k, ?_, htarget⟩
    rw [appendsOf_append, List.getElem?_append_left (List.getElem?_eq_some_iff.1 hk).1]
    exact hk

/-- A move that leaves the log alone and changes the control point of `t` inside its call. -/
theorem Fifo.targets_goesOn (hf : Fifo s) {t : Nat} {p : Pc T}
    (hp : ∀ c myTarget asleep, p = .putting c (.handoff myTarget) asleep →
      ∃ asleep', s.pc t = .putting c (.handoff myTarget) asleep') :
    ∀ u c myTarget asleep,
      Function.update s.pc t p u = .putting c (.handoff myTarget) asleep →
        ∃ k : Nat, (appendsOf s.log)[k]? = some (c.call, c.item) ∧ myTarget = k + 1 := by
  intro u c myTarget asleep hu
  by_cases hut : u = t
  · subst hut
    rw [Function.update_self] at hu
    obtain ⟨asleep', hpc⟩ := hp c myTarget asleep hu
    exact hf.targets u c myTarget asleep' hpc
  · rw [Function.update_of_ne hut] at hu
    exact hf.targets u c myTarget asleep hu

/-- Every move keeps the buffer, and the counters of a rendezvous, in line with the history. -/
theorem move_fifo (hf : Fifo s) {b : Option Nat} (h : Move s s' b) : Fifo s' := by
  have hitems := hf.items
  have hconsumed := hf.consumed
  cases h with
  | tick d => exact ⟨hitems, hconsumed, hf.targets⟩
  | quiet t pc calls evs hq =>
    obtain ⟨happ, htake⟩ := hq.no_items
    refine ⟨?_, fun hcap => ?_, hf.targets_update fun c myTarget asleep hp => ?_⟩
    · simpa [appendsOf_append, takesOf_append, happ, htake] using hitems
    · simpa [takesOf_append, htake] using hconsumed hcap
    · cases hq <;> simp at hp
  | push t item claim pc calls evs hp hopen hroom =>
    obtain ⟨k, happ, htake⟩ := hp.one_append
    refine ⟨?_, fun hcap => ?_, hf.targets_update fun c myTarget asleep hpc => ?_⟩
    · simp only [appendsOf_append, takesOf_append, happ, htake, List.append_nil, List.map_append,
        ChannelState.push, ChannelState.enter_buffer, ← List.append_assoc, hitems]
      rfl
    · simpa [takesOf_append, htake, ChannelState.push] using hconsumed hcap
    · cases hp with
      | nowait => cases hpc
      | put => cases hpc
      | rendezvous c' hpc' hclosed hzero =>
        -- The target counts the items taken, the buffer and the new item: its position plus one.
        cases hpc
        refine ⟨(appendsOf s.log).length, ?_, ?_⟩
        · rw [appendsOf_append]
          simp [appendsOf]
        · have hlen := hf.length_eq
          rw [hconsumed hzero, hlen]
          push_cast
          omega
  | pull t item rest calls evs hp hbuf =>
    obtain ⟨k, htake, happ⟩ := hp.one_take
    refine ⟨?_, fun hcap => ?_, hf.targets_update (by simp)⟩
    · rw [hbuf] at hitems
      simpa [appendsOf_append, takesOf_append, happ, htake, ChannelState.take] using hitems
    · have hcap' : s.chan.capacity = some 0 := hcap
      simp only [ChannelState.take, ChannelState.enter_capacity, ChannelState.enter_itemsConsumed,
        hcap', if_true, hconsumed hcap', takesOf_append, htake, List.length_append,
        List.length_singleton]
      push_cast
      rfl
  | sleepSend t c phase hpc hopen hwait =>
    refine ⟨hitems, hconsumed, hf.targets_goesOn fun c' myTarget asleep hp => ?_⟩
    cases hp
    exact ⟨false, hpc⟩
  | sleepReceive t c hpc hopen hsend hbuf => exact ⟨hitems, hconsumed, hf.targets_goesOn (by simp)⟩
  | wakeSend t c phase hpc =>
    refine ⟨hitems, hconsumed, hf.targets_goesOn fun c' myTarget asleep hp => ?_⟩
    cases hp
    exact ⟨true, hpc⟩
  | wakeReceive t c hpc => exact ⟨hitems, hconsumed, hf.targets_goesOn (by simp)⟩
  | _ t h hpc hopen =>
    refine ⟨?_, fun hcap => ?_, fun u c myTarget asleep hu => ?_⟩
    · simpa [appendsOf_append, takesOf_append, appendsOf, takesOf] using hitems
    · simpa [takesOf_append, takesOf] using hconsumed hcap
    · simpa [appendsOf_append, appendsOf] using hf.targets u c myTarget asleep hu

theorem fifo_start (capacity : Option Nat) : Fifo (Sys.start capacity : Sys T) where
  items := rfl
  consumed _ := rfl
  targets t c myTarget asleep h := by cases h

theorem fifo_reachable {capacity : Option Nat} (h : (system T capacity).Reachable s) : Fifo s :=
  invariant_of_moves (fifo_start capacity) (fun _ _ _ _ hf hmove => move_fifo hf hmove) h

end Fifo

/-! ## A `put` that times out in phase 2 -/

/-- Whenever a `put` timed out after its append, its item was in the buffer exactly once. -/
def TimeoutsLeaveItem (log : List (Event T)) : Prop :=
  ∀ l r c item, log = l ++ .raised c .timeout :: r → (c, item) ∈ appendsOf l →
    (pendingOf l).filter (fun p => p.1 = c) = [(c, item)]

section Timeouts

variable {s s' : Sys T}

/-- An element that occurs once, and not among the first `n`, occurs once among the others. -/
theorem filter_drop_of_le {α : Type u} {l : List α} {a : α} {p : α → Bool} {n k : Nat}
    (hl : l.filter p = [a]) (hp : p a = true) (hk : l[k]? = some a) (hnk : n ≤ k) :
    (l.drop n).filter p = [a] := by
  have hsub : List.Sublist ((l.drop n).filter p) [a] := hl ▸ (List.drop_sublist n l).filter p
  rcases List.sublist_singleton.1 hsub with hnil | hone
  · have hmem : a ∈ l.drop n := by
      refine List.mem_of_getElem? (i := k - n) ?_
      rw [List.getElem?_drop, Nat.add_sub_cancel' hnk]
      exact hk
    exact absurd hp (List.filter_eq_nil_iff.1 hnil a hmem)
  · exact hone

/-- Events without a timeout say nothing new. -/
theorem TimeoutsLeaveItem.append {log evs : List (Event T)} (ht : TimeoutsLeaveItem log)
    (hevs : ∀ c, Event.raised c .timeout ∉ evs) : TimeoutsLeaveItem (log ++ evs) := by
  intro l r c item heq hmem
  rcases Core.split_grown heq with ⟨suf, hlog⟩ | ⟨pre, -, hnew⟩
  · exact ht l suf c item hlog hmem
  · exact absurd (by rw [hnew]; simp) (hevs c)

/-- Only the call that raises now has to be looked at. -/
theorem TimeoutsLeaveItem.raise {log : List (Event T)} (ht : TimeoutsLeaveItem log) {k : Nat}
    {e : ChannelError} (hnew : e = .timeout → ∀ item, (k, item) ∈ appendsOf log →
      (pendingOf log).filter (fun p => p.1 = k) = [(k, item)]) :
    TimeoutsLeaveItem (log ++ [.raised k e]) := by
  intro l r c item heq hmem
  rcases Core.split_grown heq with ⟨suf, hlog⟩ | ⟨pre, hl, hlast⟩
  · exact ht l suf c item hlog hmem
  · cases pre with
    | nil =>
      rw [List.nil_append, List.cons.injEq, Event.raised.injEq] at hlast
      obtain ⟨⟨rfl, rfl⟩, -⟩ := hlast
      rw [List.append_nil] at hl
      subst hl
      exact hnew rfl item hmem
    | cons e' pre => simp at hlast

/-- The appends of call `c` are those of its history. -/
theorem mem_appendsOf_iff {log : List (Event T)} {c : Nat} {item : T} :
    (c, item) ∈ appendsOf log ↔ (c, item) ∈ appendsOf (history log c) := by
  rw [appendsOf_history, List.mem_filter]
  simp

/-- A call that has only begun has appended nothing, so its timeout leaves nothing behind. -/
theorem TimeoutsLeaveItem.raise_begun {log : List (Event T)} (ht : TimeoutsLeaveItem log) {k : Nat}
    {op : Op T} (hist : history log k = [.began k op]) (e : ChannelError) :
    TimeoutsLeaveItem (log ++ [.raised k e]) := by
  refine ht.raise fun _ item hmem => ?_
  rw [mem_appendsOf_iff, hist] at hmem
  simp [appendsOf] at hmem

/-- Timeouts in a move that touches no item leave the item of their `put` in the buffer. -/
theorem Quiet.timeouts {capacity : Option Nat} (hcap : s.chan.capacity = capacity)
    (hs : Stories capacity s) (hf : Fifo s) (ht : TimeoutsLeaveItem s.log) {t calls : Nat}
    {pc : Pc T} {evs : List (Event T)} (hq : Quiet s t pc calls evs) :
    TimeoutsLeaveItem (s.log ++ evs) := by
  cases hq with
  | refused op e hpc =>
    have hbegun : TimeoutsLeaveItem (s.log ++ [.began s.calls op]) := ht.append (by simp)
    have hist : history (s.log ++ [.began s.calls op]) s.calls = [.began s.calls op] := by
      rw [history_append, hs.history_fresh]
      simp [history, Event.call]
    simpa using hbegun.raise_begun hist e
  | putRaised c e hpc hwhy =>
    obtain ⟨timeout, hist⟩ := hs.of_space hpc
    exact ht.raise_begun hist e
  | getRaised c e hpc hwhy =>
    obtain ⟨timeout, hist⟩ := hs.of_getting hpc
    exact ht.raise_begun hist e
  | handoffTimeout c myTarget hpc hlt hopen =>
    -- The item is at position `k`, and `items_consumed`, the number of removals, is at most `k`.
    obtain ⟨hzero, timeout, hist⟩ := hs.of_handoff hpc
    obtain ⟨k, hk, htarget⟩ := hf.targets t c myTarget false hpc
    have hconsumed := hf.consumed (hcap.trans hzero)
    have honce : (appendsOf s.log).filter (fun p => p.1 = c.call) = [(c.call, c.item)] := by
      rw [← appendsOf_history, hist]
      rfl
    refine ht.raise fun _ item hmem => ?_
    rw [mem_appendsOf_iff, hist] at hmem
    have hitem : item = c.item := by simpa [appendsOf] using hmem
    rw [hitem]
    exact filter_drop_of_le honce (by simp) hk (by omega)
  | _ => exact ht.append (by simp)

/-- Every `put` that a move times out leaves its item in the buffer. -/
theorem move_timeouts {capacity : Option Nat} (hcap : s.chan.capacity = capacity)
    (hs : Stories capacity s) (hf : Fifo s) (ht : TimeoutsLeaveItem s.log) {b : Option Nat}
    (h : Move s s' b) : TimeoutsLeaveItem s'.log := by
  cases h with
  | quiet t pc calls evs hq => exact hq.timeouts hcap hs hf ht
  | push t item claim pc calls evs hp hopen hroom =>
    refine ht.append fun c hmem => ?_
    cases hp <;> simp at hmem
  | pull t item rest calls evs hp hbuf =>
    refine ht.append fun c hmem => ?_
    cases hp <;> simp at hmem
  | cloneSend => exact ht.append (by simp)
  | cloneReceive => exact ht.append (by simp)
  | closeSend => exact ht.append (by simp)
  | closeReceive => exact ht.append (by simp)
  | _ => exact ht

theorem timeouts_reachable {capacity : Option Nat} (h : (system T capacity).Reachable s) :
    TimeoutsLeaveItem s.log := by
  refine invariant_of_moves (I := fun s => TimeoutsLeaveItem s.log) ?_ ?_ h
  · intro l r c item heq
    cases l <;> cases heq
  · intro r u b hr ht hmove
    exact move_timeouts (invOf_reachable hr).capacity_eq (stories_reachable hr)
      (fifo_reachable hr) ht hmove

end Timeouts

/-! ## Delivery -/

/-- What a channel guarantees about the items put into it. -/
structure Delivery (capacity : Option Nat) (s : Sys T) : Prop where
  /-- Nothing is lost, duplicated or reordered. -/
  fifo : (takesOf s.log).map Prod.snd ++ s.chan.buffer = (appendsOf s.log).map Prod.snd
  /-- The items taken belong to the oldest appends, the buffer to the others. -/
  delivered : (deliveredOf s.log).map Prod.snd = (takesOf s.log).map Prod.snd ∧
    (pendingOf s.log).map Prod.snd = s.chan.buffer
  /-- Items of any group of puts, those of one sender for example, are taken in the order of their
  appends. -/
  ordered : ∀ p : Nat × T → Bool, (deliveredOf s.log).filter p <+: (appendsOf s.log).filter p
  /-- A call appends at most one item and takes at most one. -/
  once : ∀ c, ((appendsOf s.log).filter fun p => p.1 = c).length ≤ 1 ∧
    ((takesOf s.log).filter fun p => p.1 = c).length ≤ 1
  /-- A call that raised has removed nothing, and appended nothing unless it is a `put` that waited
  for its hand-off. -/
  raised : ∀ c e, Event.raised c e ∈ s.log → (∀ item, (c, item) ∉ takesOf s.log) ∧
    ((∀ item, (c, item) ∉ appendsOf s.log) ∨
      capacity = some 0 ∧ (e = .timeout ∨ e = .sendClosed) ∧
        ∃ h item timeout, Event.began c (.put h item timeout) ∈ s.log ∧
          (appendsOf s.log).filter (fun p => p.1 = c) = [(c, item)])
  /-- A hand-off that times out leaves its item in the buffer, exactly once. -/
  handoffTimeout : ∀ l r c item, s.log = l ++ .raised c .timeout :: r → (c, item) ∈ appendsOf l →
    (pendingOf l).filter (fun p => p.1 = c) = [(c, item)]
  /-- A hand-off that finds its own handle closed leaves its item in the buffer exactly once, or the
  item has been received exactly once. -/
  handoffClosed : ∀ l r c item, s.log = l ++ .raised c .sendClosed :: r →
    (c, item) ∈ appendsOf l →
      (pendingOf l).filter (fun p => p.1 = c) = [(c, item)] ∨
        (deliveredOf l).filter (fun p => p.1 = c) = [(c, item)]

section Main

variable {capacity : Option Nat} {s : Sys T}

theorem Finished.counts {c : Nat} {evs : List (Event T)} (h : Finished capacity c evs) :
    (appendsOf evs).length ≤ 1 ∧ (takesOf evs).length ≤ 1 := by
  cases h <;> simp [appendsOf, takesOf]

theorem Story.counts {pc : Pc T} {evs : List (Event T)} (h : Story capacity pc evs) :
    (appendsOf evs).length ≤ 1 ∧ (takesOf evs).length ≤ 1 := by
  cases h <;> simp [appendsOf, takesOf]

theorem Story.not_raised {pc : Pc T} {evs : List (Event T)} (h : Story capacity pc evs) {c : Nat}
    {e : ChannelError} : Event.raised c e ∉ evs := by
  cases h <;> simp

/-- Every event belongs to a call that is running or over. -/
theorem Stories.cases (hs : Stories capacity s) (c : Nat) :
    history s.log c = [] ∨ (∃ t, Story capacity (s.pc t) (history s.log c)) ∨
      Finished capacity c (history s.log c) := by
  by_cases hc : c < s.calls
  · rcases hs.finished c hc with ⟨t, ht⟩ | hfin
    · exact Or.inr (Or.inl ⟨t, (hs.running t c ht).2⟩)
    · exact Or.inr (Or.inr hfin)
  · refine Or.inl (history_eq_nil fun e he heq => hc ?_)
    rw [← heq]
    exact hs.fresh e he

theorem Stories.once (hs : Stories capacity s) (c : Nat) :
    ((appendsOf s.log).filter fun p => p.1 = c).length ≤ 1 ∧
      ((takesOf s.log).filter fun p => p.1 = c).length ≤ 1 := by
  rw [← appendsOf_history, ← takesOf_history]
  rcases hs.cases c with hnil | ⟨t, hstory⟩ | hfin
  · simp [hnil, appendsOf, takesOf]
  · exact hstory.counts
  · exact hfin.counts

theorem mem_takesOf_iff {log : List (Event T)} {c : Nat} {item : T} :
    (c, item) ∈ takesOf log ↔ (c, item) ∈ takesOf (history log c) := by
  rw [takesOf_history, List.mem_filter]
  simp

/-- A call that raised has taken nothing, and appended nothing unless it was handing its item over.
-/
theorem Stories.raised (hs : Stories capacity s) {c : Nat} {e : ChannelError}
    (hraised : Event.raised c e ∈ s.log) : (∀ item, (c, item) ∉ takesOf s.log) ∧
      ((∀ item, (c, item) ∉ appendsOf s.log) ∨
        capacity = some 0 ∧ (e = .timeout ∨ e = .sendClosed) ∧
          ∃ h item timeout, Event.began c (.put h item timeout) ∈ s.log ∧
            (appendsOf s.log).filter (fun p => p.1 = c) = [(c, item)]) := by
  have hmem : Event.raised c e ∈ history s.log c := mem_history.2 ⟨hraised, rfl⟩
  -- the history of a call is empty, of a call under way, or of one that has ended
  rcases hs.cases c with hnil | ⟨t, hstory⟩ | hfin
  · rw [hnil] at hmem
    cases hmem
  · exact absurd hmem hstory.not_raised
  · generalize hist : history s.log c = evs at hmem hfin
    have htakes : ∀ item, (c, item) ∈ takesOf s.log → (c, item) ∈ takesOf evs :=
      fun item h => hist ▸ mem_takesOf_iff.1 h
    have happends : ∀ item, (c, item) ∈ appendsOf s.log → (c, item) ∈ appendsOf evs :=
      fun item h => hist ▸ mem_appendsOf_iff.1 h
    cases hfin with
    | failed op e' =>
      refine ⟨fun item h => ?_, Or.inl fun item h => ?_⟩
      · exact absurd (htakes item h) (by simp [takesOf])
      · exact absurd (happends item h) (by simp [appendsOf])
    | returned op => simp at hmem
    | sent op item => simp at hmem
    | received op item => simp at hmem
    -- a hand-off that has failed: its item was appended, once
    | handoffFailed h item timeout e' hzero he =>
      have heq : e = e' := by simpa using hmem
      refine ⟨fun item' h' => absurd (htakes item' h') (by simp [takesOf]),
        Or.inr ⟨hzero, heq ▸ he, h, item, timeout, ?_, ?_⟩⟩
      · have hbegan : Event.began c (.put h item timeout) ∈ history s.log c := by
          rw [hist]
          exact List.mem_cons_self
        exact (mem_history.1 hbegan).1
      · rw [← appendsOf_history, hist]
        rfl

/-- An append that occurs at most once occurs exactly once. -/
theorem filter_eq_singleton {l : List (Nat × T)} {c : Nat} {item : T}
    (hle : (l.filter fun p => p.1 = c).length ≤ 1) (hmem : (c, item) ∈ l) :
    l.filter (fun p => p.1 = c) = [(c, item)] := by
  have hin : (c, item) ∈ l.filter fun p => p.1 = c := List.mem_filter.2 ⟨hmem, by simp⟩
  obtain ⟨a, ha⟩ := List.length_eq_one_iff.1
    (Nat.le_antisymm hle (List.length_pos_of_mem hin))
  rw [ha, List.mem_singleton] at hin
  rw [ha, hin]

/-- An append that occurs exactly once is pending or delivered. -/
theorem pending_or_delivered {l : List (Event T)} {c : Nat} {item : T}
    (honce : (appendsOf l).filter (fun p => p.1 = c) = [(c, item)]) :
    (pendingOf l).filter (fun p => p.1 = c) = [(c, item)] ∨
      (deliveredOf l).filter (fun p => p.1 = c) = [(c, item)] := by
  have hsplit : (deliveredOf l).filter (fun p => p.1 = c) ++
      (pendingOf l).filter (fun p => p.1 = c) = [(c, item)] := by
    rw [← honce, ← List.filter_append, deliveredOf, pendingOf, List.take_append_drop]
  rcases List.append_eq_singleton_iff.1 hsplit with ⟨-, hpending⟩ | ⟨hdelivered, -⟩
  · exact Or.inl hpending
  · exact Or.inr hdelivered

/-- In every reachable state of every channel. -/
theorem channel_delivery (h : (system T capacity).Reachable s) : Delivery capacity s := by
  have hs := stories_reachable h
  have hf := fifo_reachable h
  have htake : (takesOf s.log).length = ((takesOf s.log).map Prod.snd).length := by simp
  refine ⟨hf.items, ⟨?_, ?_⟩, fun p => (List.take_prefix _ _).filter p, hs.once,
    fun c e => hs.raised, timeouts_reachable h, fun l r c item hlog hmem => ?_⟩
  · rw [deliveredOf, List.map_take, ← hf.items, htake, List.take_left]
  · rw [pendingOf, List.map_drop, ← hf.items, htake, List.drop_left]
  · refine pending_or_delivered (filter_eq_singleton ?_ hmem)
    have honce := (hs.once c).1
    rw [hlog, appendsOf_append, List.filter_append, List.length_append] at honce
    exact Nat.le_trans (Nat.le_add_right _ _) honce

/-- A `put` with a timeout whose hand-off nobody takes. -/
def lonelyPut : List (Act Nat) :=
  [.call 1 (.put 0 10 (some 5)), .run 1, .run 1, .tick 5, .run 1, .run 1]

/-- It times out, and its item is still in the buffer. -/
theorem channel_delivery_lonelyPut :
    ∃ s : Sys Nat, s.chan.buffer = [10] ∧ Event.raised 0 .timeout ∈ s.log ∧
      Delivery (some 0) s := by
  have hreach := Lts.Reachable.of_isSome (M := system Nat (some 0)) rfl lonelyPut rfl
  exact ⟨_, rfl, by decide, channel_delivery hreach⟩

/-- A `put` hands its item over, and its handle is closed before it runs again. -/
def closedAfterDelivery : List (Act Nat) :=
  [.call 1 (.put 0 10 none), .run 1, .call 2 (.getNowait 0), .call 2 (.closeSend 0), .run 1]

/-- The `put` raises while it waits for its hand-off, and its item is not in the buffer: it had been
received. -/
theorem handoff_raises_after_delivery :
    ∃ s : Sys Nat, (system Nat (some 0)).Reachable s ∧ Event.raised 0 .sendClosed ∈ s.log ∧
      appendsOf s.log = [(0, 10)] ∧ takesOf s.log = [(1, 10)] ∧ s.chan.buffer = [] := by
  have hreach := Lts.Reachable.of_isSome (M := system Nat (some 0)) rfl closedAfterDelivery rfl
  exact ⟨_, hreach, by decide, rfl, rfl, rfl⟩

end Main

end LocalPost.Threadtools.Channel
