import Mathlib.Data.List.Basic

/-!
# First-in first-out streams in memory

A stream has a sending and a receiving end, each of which can be closed, and a buffer with or
without a bound. `send_nowait` never blocks: it hands an item over or raises. The streams are those
of a library, so they are a parameter (`MemoryStreams`), and `Documented` is what the library says
of its operations, in terms of the items a stream has accepted and of those its receiver has got.

`deque` is a stream that behaves as documented.
-/

set_option autoImplicit false

namespace LocalPost.Core

universe u v

/-- What `send_nowait` raises: the sending end is closed, no receiving end is open, there is no
room. -/
inductive SendError where
  | closedResource
  | brokenResource
  | wouldBlock
  deriving DecidableEq, Repr

/-- The operations of a stream, and what can be observed of it. `receive` is one step of the
receiver: it gets an item, or it begins to wait. -/
structure MemoryStreams (σ : Type u) (ρ : Type v) where
  create : Option Nat → σ
  sendNowait : σ → ρ → Except SendError σ
  receive : σ → Option ρ × σ
  closeSend : σ → σ
  closeReceive : σ → σ
  sendClosed : σ → Bool
  receiveClosed : σ → Bool
  full : σ → Bool
  accepted : σ → List ρ
  received : σ → List ρ

namespace MemoryStreams

variable {σ : Type u} {ρ : Type v}

/-- The receiver is there and has room. -/
def live (M : MemoryStreams σ ρ) (s : σ) : Bool := !M.receiveClosed s && !M.full s

/-- The receiver would be told that the stream has ended. -/
def atEnd (M : MemoryStreams σ ρ) (s : σ) : Prop :=
  M.sendClosed s = true ∧ M.received s = M.accepted s

/-- The ends and the items of `t` are those of `s`. -/
structure Alike (M : MemoryStreams σ ρ) (s t : σ) : Prop where
  sendClosed : M.sendClosed t = M.sendClosed s
  receiveClosed : M.receiveClosed t = M.receiveClosed s
  accepted : M.accepted t = M.accepted s

/-- What the library says of its streams. -/
structure Documented (M : MemoryStreams σ ρ) : Prop where
  created : ∀ max : Option Nat, M.sendClosed (M.create max) = false ∧
    M.receiveClosed (M.create max) = false ∧ M.accepted (M.create max) = []
  closed : ∀ (s : σ) (x : ρ), M.sendClosed s = true → M.sendNowait s x = .error .closedResource
  broken : ∀ (s : σ) (x : ρ), M.sendClosed s = false → M.receiveClosed s = true →
    M.sendNowait s x = .error .brokenResource
  blocked : ∀ (s : σ) (x : ρ), M.sendClosed s = false → M.receiveClosed s = false →
    M.full s = true → M.sendNowait s x = .error .wouldBlock
  sent : ∀ (s : σ) (x : ρ), M.sendClosed s = false → M.receiveClosed s = false →
    M.full s = false → ∃ t : σ, M.sendNowait s x = .ok t ∧ M.sendClosed t = false ∧
      M.receiveClosed t = false ∧ M.accepted t = M.accepted s ++ [x]
  receive_alike : ∀ s : σ, M.Alike s (M.receive s).2
  closeSend_accepted : ∀ s : σ, M.accepted (M.closeSend s) = M.accepted s ∧
    M.receiveClosed (M.closeSend s) = M.receiveClosed s ∧ M.sendClosed (M.closeSend s) = true
  closeReceive_accepted : ∀ s : σ, M.accepted (M.closeReceive s) = M.accepted s ∧
    M.sendClosed (M.closeReceive s) = M.sendClosed s ∧ M.receiveClosed (M.closeReceive s) = true
  fifo : ∀ s : σ, M.received s <+: M.accepted s

/-- What the library says of the receiver, and of the streams without a bound (`max_buffer_size` is
`math.inf`): the receiver gets the accepted items one after the other, and there is always room. -/
structure Queues (M : MemoryStreams σ ρ) (Unbounded : σ → Prop) : Prop where
  created : Unbounded (M.create none)
  room : ∀ s : σ, Unbounded s → M.full s = false
  sent : ∀ (s : σ) (x : ρ) (t : σ), M.sendNowait s x = .ok t →
    (Unbounded s → Unbounded t) ∧ M.received t = M.received s
  item : ∀ s : σ, (M.receive s).1 = (M.accepted s)[(M.received s).length]?
  taken : ∀ s : σ, M.received (M.receive s).2 = (M.accepted s).take ((M.received s).length + 1)
  receive_unbounded : ∀ s : σ, Unbounded s → Unbounded (M.receive s).2
  closeSend_unbounded : ∀ s : σ, (Unbounded s → Unbounded (M.closeSend s)) ∧
    M.received (M.closeSend s) = M.received s
  closeReceive_unbounded : ∀ s : σ, (Unbounded s → Unbounded (M.closeReceive s)) ∧
    M.received (M.closeReceive s) = M.received s

/-- The receiver has got one more item. -/
theorem Queues.received_append {M : MemoryStreams σ ρ} {Unbounded : σ → Prop} (hM : M.Documented)
    (hQ : M.Queues Unbounded) {s : σ} {x : ρ} (h : (M.receive s).1 = some x) :
    M.received (M.receive s).2 = M.received s ++ [x] := by
  obtain ⟨rest, hrest⟩ := hM.fifo s
  rw [hQ.item s, ← hrest, List.getElem?_append_right (Nat.le_refl _), Nat.sub_self] at h
  rw [hQ.taken s, ← hrest, List.take_append, List.take_of_length_le (Nat.le_succ _),
    Nat.add_sub_cancel_left]
  cases rest with
  | nil => cases h
  | cons y rest =>
    cases h
    rfl

/-- A receiver that has to wait has got everything. -/
theorem Queues.received_eq {M : MemoryStreams σ ρ} {Unbounded : σ → Prop} (hM : M.Documented)
    (hQ : M.Queues Unbounded) {s : σ} (h : (M.receive s).1 = none) :
    M.received s = M.accepted s := by
  rw [hQ.item s, List.getElem?_eq_none_iff] at h
  exact (hM.fifo s).eq_of_length (Nat.le_antisymm (hM.fifo s).length_le h)

end MemoryStreams

/-- A stream with its buffer, whether its receiver waits, and what it has accepted. -/
structure Deque (ρ : Type v) where
  max : Option Nat
  buffer : List ρ
  waiting : Bool
  sendClosed : Bool
  receiveClosed : Bool
  received : List ρ
  deriving DecidableEq, Repr

namespace Deque

variable {ρ : Type v}

/-- There is no room in the buffer and nobody waits. -/
def full (s : Deque ρ) : Bool :=
  !s.waiting && s.max.any fun max => decide (max ≤ s.buffer.length)

/-- `send_nowait`. -/
def sendNowait (s : Deque ρ) (x : ρ) : Except SendError (Deque ρ) :=
  if s.sendClosed then .error .closedResource
  else if s.receiveClosed then .error .brokenResource
  else if s.full then .error .wouldBlock
  else .ok { s with buffer := s.buffer ++ [x], waiting := false }

/-- One step of `receive`. -/
def receive (s : Deque ρ) : Option ρ × Deque ρ :=
  match s.buffer with
  | [] => (none, { s with waiting := true })
  | x :: rest => (some x, { s with buffer := rest, received := s.received ++ [x] })

/-- The streams. -/
def streams : MemoryStreams (Deque ρ) ρ where
  create max := ⟨max, [], false, false, false, []⟩
  sendNowait := sendNowait
  receive := receive
  closeSend s := { s with sendClosed := true }
  closeReceive s := { s with receiveClosed := true }
  sendClosed := Deque.sendClosed
  receiveClosed := Deque.receiveClosed
  full := full
  accepted s := s.received ++ s.buffer
  received := Deque.received

/-- The deque behaves as documented. -/
theorem documented : (streams : MemoryStreams (Deque ρ) ρ).Documented where
  created _ := ⟨rfl, rfl, rfl⟩
  closed s x h := by
    have hs : s.sendClosed = true := h
    simp [streams, sendNowait, hs]
  broken s x h hr := by
    have hs : s.sendClosed = false := h
    have hr' : s.receiveClosed = true := hr
    simp [streams, sendNowait, hs, hr']
  -- a full buffer refuses before anything is looked at
  blocked s x h hr hfull := by
    have hs : s.sendClosed = false := h
    have hr' : s.receiveClosed = false := hr
    have hf : s.full = true := hfull
    simp [streams, sendNowait, hs, hr', hf]
  -- room: the item is appended, and the waiting receiver is told
  sent s x h hr hfull := by
    have hs : s.sendClosed = false := h
    have hr' : s.receiveClosed = false := hr
    have hf : s.full = false := hfull
    refine ⟨{ s with buffer := s.buffer ++ [x], waiting := false }, ?_, hs, hr', ?_⟩
    · simp [streams, sendNowait, hs, hr', hf]
    · simp [streams]
  receive_alike s := by
    cases hbuffer : s.buffer with
    | nil => constructor <;> simp [streams, receive, hbuffer]
    | cons x rest => constructor <;> simp [streams, receive, hbuffer]
  closeSend_accepted _ := ⟨rfl, rfl, rfl⟩
  closeReceive_accepted _ := ⟨rfl, rfl, rfl⟩
  fifo s := List.prefix_append _ _

/-- A stream without a bound takes every item at once. -/
theorem queues : (streams : MemoryStreams (Deque ρ) ρ).Queues fun s => s.max = none where
  created := rfl
  room s h := by
    have hmax : s.max = none := h
    simp [streams, full, hmax]
  sent s x t h := by
    have hsent : sendNowait s x = .ok t := h
    -- the three guards of `send_nowait`, then the append
    unfold sendNowait at hsent
    split at hsent
    · cases hsent
    split at hsent
    · cases hsent
    split at hsent
    · cases hsent
    · cases hsent
      exact ⟨fun hmax => hmax, rfl⟩
  item s := by
    cases hbuffer : s.buffer with
    | nil => simp [streams, receive, hbuffer]
    | cons x rest => simp [streams, receive, hbuffer]
  taken s := by
    cases hbuffer : s.buffer with
    | nil =>
      simp only [streams, receive, hbuffer, List.append_nil]
      exact (List.take_of_length_le (Nat.le_succ _)).symm
    | cons x rest =>
      simp only [streams, receive, hbuffer]
      rw [List.take_append, List.take_of_length_le (Nat.le_succ _), Nat.add_sub_cancel_left]
      rfl
  receive_unbounded s h := by
    cases hbuffer : s.buffer with
    | nil => simpa [streams, receive, hbuffer] using h
    | cons x rest => simpa [streams, receive, hbuffer] using h
  closeSend_unbounded _ := ⟨fun h => h, rfl⟩
  closeReceive_unbounded _ := ⟨fun h => h, rfl⟩

end Deque

end LocalPost.Core
