import LocalPost.Threadtools.Channel.Handoff

/-!
# The counters of a rendezvous

A rendezvous keeps its items apart by counting: `pending_handoffs` counts the items in the buffer
that a waiting receiver has been claimed for, `items_consumed` the removals. An item that is
appended without a claim goes into an empty buffer, and no second one follows it, so at most one
item of the buffer is unclaimed (`Claimed`). Nothing else ties the two counters to each other or to
`waiting_receivers`, which a receiver lowers whenever it wakes up.

`accounted_reachable`: in every reachable state the counters agree with the history, and a `put` in
its second phase finds its target reached exactly when its own item has been removed.
-/

set_option autoImplicit false

namespace LocalPost.Threadtools.Channel

open LocalPost.Core

universe u

variable {T : Type u}

/-- All items but at most one are claimed. -/
structure ChannelState.Claimed (st : ChannelState T) : Prop where
  pending : 0 ≤ st.pendingHandoffs
  covered : st.pendingHandoffs ≤ st.buffer.length
  unclaimed : (st.buffer.length : Int) ≤ st.pendingHandoffs + 1

/-- The counters of a rendezvous against its buffer, its history and the threads in their second
phase. -/
structure Accounted (s : Sys T) : Prop where
  pending : 0 ≤ s.chan.pendingHandoffs
  unclaimed : 0 ≤ (s.chan.buffer.length : Int) - s.chan.pendingHandoffs ∧
    (s.chan.buffer.length : Int) - s.chan.pendingHandoffs ≤ 1
  consumed : s.chan.itemsConsumed + s.chan.buffer.length = (appendsOf s.log).length
  target : ∀ t c myTarget asleep, s.pc t = .putting c (.handoff myTarget) asleep →
    (s.chan.itemsConsumed ≥ myTarget ↔ HandedOver s.log c.call c.item)

namespace ChannelState.Claimed

variable {st : ChannelState T}

/-- An append with a claim adds to both sides; one without finds the buffer empty. -/
theorem push (h : st.Claimed) (hcap : st.capacity = some 0) {claim : Bool}
    (hroom : st.HasRoom claim) (t : Nat) (item : T) : ((st.enter t).push item claim).Claimed := by
  have hlength : (((st.enter t).push item claim).buffer.length : Int) = st.buffer.length + 1 := by
    simp [ChannelState.push]
  have hpending := h.pending
  have hcovered := h.covered
  have hunclaimed := h.unclaimed
  rw [HasRoom, hcap] at hroom
  cases claim with
  | true =>
    have hcount : ((st.enter t).push item true).pendingHandoffs = st.pendingHandoffs + 1 := rfl
    constructor <;> omega
  | false =>
    -- The only way to one unclaimed item.
    have hempty : st.buffer = [] := hroom.1
    have hzero : st.buffer.length = 0 := congrArg List.length hempty
    have hcount : ((st.enter t).push item false).pendingHandoffs = st.pendingHandoffs := rfl
    constructor <;> omega

/-- A removal takes a claim with it as long as there is one. -/
theorem take (h : st.Claimed) (hcap : st.capacity = some 0) {item : T} {rest : List T}
    (hbuf : st.buffer = item :: rest) (t : Nat) : ((st.enter t).take rest).Claimed := by
  have hlength : (st.buffer.length : Int) = rest.length + 1 := by
    rw [hbuf, List.length_cons]
    rfl
  have hcount : ((st.enter t).take rest).pendingHandoffs =
      if st.pendingHandoffs > 0 then st.pendingHandoffs - 1 else st.pendingHandoffs := by
    simp [ChannelState.take, hcap]
  have hrest : (((st.enter t).take rest).buffer.length : Int) = rest.length := rfl
  have hpending := h.pending
  have hcovered := h.covered
  have hunclaimed := h.unclaimed
  -- Without a claim left, the item that goes is the unclaimed one.
  split at hcount <;> constructor <;> omega

end ChannelState.Claimed

section Runs

variable {s s' : Sys T}

/-- Only appends and removals touch the buffer and the claims. -/
theorem move_claimed (hcap : s.chan.capacity = some 0) (h : s.chan.Claimed) {b : Option Nat}
    (hmove : Move s s' b) : s'.chan.Claimed := by
  cases hmove with
  | push t item claim pc calls evs hp hopen hroom => exact h.push hcap hroom t item
  | pull t item rest calls evs hp hbuf => exact h.take hcap hbuf t
  | _ => exact ⟨h.pending, h.covered, h.unclaimed⟩

/-- In every reachable state all items but at most one are claimed. -/
theorem claimed_reachable (h : (system T (some 0)).Reachable s) : s.chan.Claimed := by
  have hstart : ∀ r : Sys T, (system T (some 0)).init r → r.chan.Claimed := by
    rintro r rfl
    exact ⟨Int.le_refl 0, Int.le_refl 0, Int.zero_le_ofNat 1⟩
  have hstep : ∀ (r : Sys T) (a : Act T) (u : Sys T), (system T (some 0)).Reachable r →
      r.chan.Claimed → (system T (some 0)).step r a = some u → u.chan.Claimed := by
    intro r a u hr hclaimed hu
    have hi := invOf_reachable hr
    exact move_claimed hi.capacity_eq hclaimed (step_move hi.inv hu)
  exact Lts.invariant_of_reachable hstart hstep h

/-- Over any interleaving of calls, timeouts and closes. -/
theorem accounted_reachable (h : (system T (some 0)).Reachable s) : Accounted s := by
  have hclaimed := claimed_reachable h
  have hf := fifo_reachable h
  constructor
  case pending => exact hclaimed.pending
  case unclaimed =>
    have hcovered := hclaimed.covered
    have hunclaimed := hclaimed.unclaimed
    constructor <;> omega
  case consumed =>
    have hconsumed := hf.consumed (invOf_reachable h).capacity_eq
    have hlength := hf.length_eq
    omega
  case target =>
    intro t c myTarget asleep hpc
    exact (handedOver_iff h hpc).symm

/-- A `put` has appended its item without a claim and waits for it to be taken. -/
theorem accounted_reachable_onePair :
    ∃ s : Sys Nat, (system Nat (some 0)).Reachable s ∧ s.chan.buffer = [10] ∧ Accounted s := by
  have hreach := Lts.Reachable.of_isSome (M := system Nat (some 0)) rfl
    [.call 1 (.put 0 10 none), .run 1, .run 1] rfl
  exact ⟨_, hreach, rfl, accounted_reachable hreach⟩

end Runs

end LocalPost.Threadtools.Channel
