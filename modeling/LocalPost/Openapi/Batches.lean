import Mathlib.Logic.Function.Iterate
import LocalPost.Openapi.Drained

/-!
# Batches

Which types an adapter is handed together decides how msgspec names them. It is a matter of the
types asked for and of the fields of the attrs classes: an `Agenda` goes over the buckets like the
loop of `components` and asks no library for a description. `Batch` is what some pass comes by, and
a collection that has come to its end has called the adapters with these and no others
(`batch_iff`).
-/

set_option autoImplicit false

namespace LocalPost.Openapi.Components

variable {K : Type}

/-- The registry, how much of each bucket has been taken, and the batches. -/
structure Agenda (K : Type) where
  reg : Registry K
  processed : Adapter → Nat
  batches : List (Adapter × List (Ann K))

variable [DecidableEq K]

namespace Agenda

/-- The types asked for. -/
def start (L : Libs K) (asked : List (Ann K)) : Agenda K :=
  ⟨registerAll L asked .empty, fun _ => 0, []⟩

/-- The new part of a bucket is a batch, and the types of its fields come behind. -/
def turn (L : Libs K) (g : Agenda K) (a : Adapter) : Agenda K :=
  if (g.reg.bucket a).length ≤ g.processed a then g
  else
    let pending := (g.reg.bucket a).drop (g.processed a)
    ⟨registerAll L (a.leaves L pending) g.reg,
      fun b => if b = a then (g.reg.bucket a).length else g.processed b,
        g.batches ++ [(a, pending)]⟩

/-- The buckets in turn, those that there are when the pass begins. -/
def pass (L : Libs K) (g : Agenda K) : Agenda K := g.reg.keys.foldl (turn L) g

end Agenda

/-- A batch for the adapter `a`: some pass comes by it. -/
def Batch (L : Libs K) (asked : List (Ann K)) (a : Adapter) (types : List (Ann K)) : Prop :=
  ∃ n, (a, types) ∈ (Nat.iterate (Agenda.pass L) n (Agenda.start L asked)).batches

variable {L : Libs K} {asked : List (Ann K)}

/-! ## The batches only grow -/

namespace Agenda

theorem batches_turn (g : Agenda K) (a : Adapter) : g.batches <+: (g.turn L a).batches := by
  unfold turn
  split
  · exact List.prefix_refl _
  · exact List.prefix_append _ _

theorem batches_foldl (as : List Adapter) (g : Agenda K) :
    g.batches <+: (as.foldl (turn L) g).batches := by
  induction as generalizing g with
  | nil => exact List.prefix_refl _
  | cons a as ih => exact (batches_turn g a).trans (ih _)

theorem batches_iterate (n : Nat) (g : Agenda K) :
    g.batches <+: (Nat.iterate (pass L) n g).batches := by
  induction n generalizing g with
  | zero => exact List.prefix_refl _
  | succ n ih => exact (batches_foldl g.reg.keys g).trans (ih _)

/-- Nothing is new in any bucket. -/
theorem pass_eq_self {g : Agenda K} (h : ∀ a, (g.reg.bucket a).length ≤ g.processed a) :
    g.pass L = g := by
  have hturns : ∀ as : List Adapter, as.foldl (turn L) g = g := by
    intro as
    induction as with
    | nil => rfl
    | cons a as ih =>
      rw [List.foldl_cons, turn, if_pos (h a)]
      exact ih
  exact hturns g.reg.keys

end Agenda

/-! ## The loop goes by the agenda -/

namespace Drain

/-- What the loop has in common with an agenda. -/
def agenda (d : Drain K) : Agenda K :=
  ⟨d.reg, d.processed, d.calls.map fun call => (call.adapter, call.types)⟩

variable {d d' : Drain K} {made : Bool}

/-- The calls of a collection that has come to its end are the batches. -/
theorem Finished.batch_iff (h : Finished L asked d)
    (hrun : ∃ n, d.agenda = Nat.iterate (Agenda.pass L) n (Agenda.start L asked)) {a : Adapter}
    {types : List (Ann K)} :
    Batch L asked a types ↔ ∃ call ∈ d.calls, call.adapter = a ∧ call.types = types := by
  obtain ⟨n, hn⟩ := hrun
  -- the batches of the run are what its calls were handed
  have hmem : (a, types) ∈ d.agenda.batches ↔ ∃ call ∈ d.calls,
      call.adapter = a ∧ call.types = types := by
    simp [agenda]
  rw [← hmem]
  constructor
  · rintro ⟨m, hm⟩
    rcases Nat.le_total m n with hle | hle
    · -- the later passes have only added to the batches
      obtain ⟨k, rfl⟩ := Nat.exists_eq_add_of_le' hle
      rw [hn, Function.iterate_add_apply]
      exact (Agenda.batches_iterate k _).subset hm
    · -- the passes behind the last one find nothing
      obtain ⟨k, rfl⟩ := Nat.exists_eq_add_of_le' hle
      have hstill : Nat.iterate (Agenda.pass L) k d.agenda = d.agenda :=
        Function.iterate_fixed (Agenda.pass_eq_self h.past) k
      rw [Function.iterate_add_apply, ← hn, hstill] at hm
      exact hm
  · intro hbatch
    rw [hn] at hbatch
    exact ⟨n, hbatch⟩

end Drain

end LocalPost.Openapi.Components
