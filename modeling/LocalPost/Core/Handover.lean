import Mathlib.Data.List.Basic

/-!
# Streams without a buffer

A stream between one sender and one receiver that holds nothing: a sender whose item nobody waits
for is blocked until the receiver comes, a receiver that comes first is given the next item while it
waits. The closing of the sending end wakes a receiver that waits. Between being woken and going on,
the receiver has the item and the sender may already offer the next one.
-/

set_option autoImplicit false

namespace LocalPost.Core

universe u

/-- The item of a blocked sender, the item that a receiver has been given while it waited, whether
the receiver waits, and whether the sending end is closed. -/
structure Handover (ρ : Type u) where
  offered : Option ρ
  handed : Option ρ
  waiting : Bool
  closed : Bool
  deriving DecidableEq, Repr

/-- How `receive` goes on. -/
inductive Receipt (ρ : Type u) where
  | item (x : ρ)
  | endOfStream
  deriving DecidableEq, Repr

namespace Handover

variable {ρ : Type u}

/-- A new stream. -/
def new : Handover ρ := ⟨none, none, false, false⟩

/-- `send`: a receiver that waits is given the item, or else the sender is blocked. -/
def send (x : ρ) (s : Handover ρ) : Handover ρ :=
  if s.waiting then { s with waiting := false, handed := some x } else { s with offered := some x }

/-- The sending end is closed. -/
def close (s : Handover ρ) : Handover ρ := { s with closed := true }

/-- The receiver is in a call that has begun to wait. -/
def inside (s : Handover ρ) : Bool := s.waiting || s.handed.isSome

/-- `receive` at its beginning; `none`: it waits. -/
def receive (s : Handover ρ) : Option (Receipt ρ) × Handover ρ :=
  match s.offered with
  | some x => (some (.item x), { s with offered := none })
  | none => if s.closed then (some .endOfStream, s) else (none, { s with waiting := true })

/-- `receive` when it is resumed; `none`: there is nothing to resume for. -/
def resume (s : Handover ρ) : Option (Receipt ρ × Handover ρ) :=
  match s.handed with
  | some x => some (.item x, { s with handed := none })
  -- Nothing was handed over, so the closing has woken it.
  | none => if s.closed then some (.endOfStream, { s with waiting := false }) else none

/-- The items on their way, in the order in which they were sent. -/
def items (s : Handover ρ) : List ρ := s.handed.toList ++ s.offered.toList

/-- What holds of a stream whose sender is blocked while its item is offered, and does not send
after closing. -/
structure Ordered (s : Handover ρ) : Prop where
  offered : s.offered.isSome = true → s.waiting = false ∧ s.closed = false
  handed : s.handed.isSome = true → s.waiting = false

theorem Ordered.new : (Handover.new : Handover ρ).Ordered :=
  ⟨fun h => (by cases h), fun h => (by cases h)⟩

section Steps

variable {s t : Handover ρ} {x : ρ}

/-- A sender that is not blocked adds its item at the end. -/
theorem Ordered.send (h : s.Ordered) (hfree : s.offered = none) (hopen : s.closed = false) :
    (s.send x).Ordered ∧ (s.send x).items = s.items ++ [x] ∧ (s.send x).closed = false ∧
      (s.send x).inside = s.inside := by
  unfold Handover.send
  split
  · rename_i hwaiting
    have hhanded : s.handed = none := by
      cases hs : s.handed with
      | none => rfl
      | some y => rw [h.handed (by rw [hs]; rfl)] at hwaiting; cases hwaiting
    refine ⟨⟨?_, fun _ => rfl⟩, ?_, hopen, ?_⟩
    · intro hoffered
      rw [hfree] at hoffered
      cases hoffered
    · simp [items, hfree, hhanded]
    · simp [inside, hwaiting]
  · rename_i hwaiting
    rw [Bool.not_eq_true] at hwaiting
    exact ⟨⟨fun _ => ⟨hwaiting, hopen⟩, h.handed⟩, by simp [items, hfree], hopen, rfl⟩

theorem Ordered.close (h : s.Ordered) (hfree : s.offered = none) : s.close.Ordered := by
  refine ⟨?_, h.handed⟩
  intro hoffered
  rw [Handover.close, hfree] at hoffered
  cases hoffered

/-- A receiver that begins takes the first item, learns that there is none to come, or waits. -/
theorem Ordered.receive (h : s.Ordered) (hinside : s.inside = false) :
    (∃ x t, s.receive = (some (.item x), t) ∧ t.Ordered ∧ s.items = x :: t.items ∧
        t.closed = s.closed ∧ t.inside = false) ∨
      (s.receive = (some .endOfStream, s) ∧ s.closed = true ∧ s.items = []) ∨
      (s.receive = (none, { s with waiting := true }) ∧
        ({ s with waiting := true } : Handover ρ).Ordered ∧
        s.items = [] ∧ s.closed = false ∧ s.waiting = false) := by
  obtain ⟨offered, handed, waiting, closed⟩ := s
  obtain ⟨hwaiting, hhanded⟩ := Bool.or_eq_false_iff.1 hinside
  cases waiting with
  | true => cases hwaiting
  | false =>
    cases handed with
    | some y => cases hhanded
    | none =>
      cases offered with
      | some x =>
        exact Or.inl ⟨x, _, rfl, ⟨fun h => (by cases h), fun h => (by cases h)⟩, rfl, rfl, rfl⟩
      | none =>
        cases closed with
        | true => exact Or.inr (Or.inl ⟨rfl, rfl, rfl⟩)
        | false =>
          exact Or.inr (Or.inr ⟨rfl, ⟨fun h => (by cases h), fun h => (by cases h)⟩, rfl, rfl, rfl⟩)

/-- A receiver that is resumed has the first item, or learns that there is none to come. -/
theorem Ordered.resume (h : s.Ordered) (hinside : s.inside = true) :
    (∃ x t, s.resume = some (.item x, t) ∧ t.Ordered ∧ s.items = x :: t.items ∧
        t.closed = s.closed ∧ t.inside = false) ∨
      (∃ t, s.resume = some (.endOfStream, t) ∧ t.Ordered ∧ s.closed = true ∧ s.items = [] ∧
        t.items = [] ∧ t.closed = true ∧ t.inside = false) ∨
      (s.resume = none ∧ s.closed = false ∧ s.offered = none) := by
  obtain ⟨offered, handed, waiting, closed⟩ := s
  cases handed with
  | some x =>
    have hwaiting : waiting = false := h.handed rfl
    subst hwaiting
    exact Or.inl ⟨x, _, rfl, ⟨h.offered, fun h => (by cases h)⟩, rfl, rfl, rfl⟩
  | none =>
    have hwaiting : waiting = true := by simpa [inside] using hinside
    subst hwaiting
    cases offered with
    | some y => cases (h.offered rfl).1
    | none =>
      cases closed with
      | true =>
        exact Or.inr
          (Or.inl ⟨_, rfl, ⟨fun h => (by cases h), fun _ => rfl⟩, rfl, rfl, rfl, rfl, rfl⟩)
      | false => exact Or.inr (Or.inr ⟨rfl, rfl, rfl⟩)

end Steps

end Handover

end LocalPost.Core
