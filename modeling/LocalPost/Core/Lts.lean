import Mathlib.Data.List.Basic

/-!
# Labelled transition systems with a partial step function

A system is a step function that answers `none` when an action is not possible in a state. A run is
the list of its actions (`exec`). Two predicates speak about a whole run: `Throughout P` says that
`P` holds in every state the run visits, `Meets C` says that every action is taken in a state where
the condition `C` on the state and the action holds.

`Lts.invariant` is the induction rule for reachable states. `Lts.throughout_iff_meets` turns a
one-step equivalence, "the property survives this step iff the condition holds before it", into the
same equivalence for every run.
-/

set_option autoImplicit false

namespace LocalPost.Core

universe u v

/-- A transition system: the initial states, and the partial step function. -/
structure Lts (σ : Type u) (α : Type v) where
  init : σ → Prop
  step : σ → α → Option σ

namespace Lts

variable {σ : Type u} {α : Type v} (M : Lts σ α)

/-- The state after the actions `as`, or `none` when one of them is not possible. -/
def exec : σ → List α → Option σ
  | s, [] => some s
  | s, a :: as => (M.step s a).bind fun t => exec t as

/-- States some run of the system ends in. -/
def Reachable (t : σ) : Prop := ∃ s as, M.init s ∧ M.exec s as = some t

/-- `P` holds in every state visited by the run `as` from `s`, the first and the last included. -/
def Throughout (P : σ → Prop) : σ → List α → Prop
  | s, [] => P s
  | s, a :: as => P s ∧ ∀ t, M.step s a = some t → Throughout P t as

/-- Every action of the run `as` from `s` is taken in a state in which `C` holds of it. -/
def Meets (C : σ → α → Prop) : σ → List α → Prop
  | _, [] => True
  | s, a :: as => C s a ∧ ∀ t, M.step s a = some t → Meets C t as

@[simp] theorem exec_nil (s : σ) : M.exec s [] = some s := rfl

theorem exec_cons {s t : σ} {a : α} {as : List α} :
    M.exec s (a :: as) = some t ↔ ∃ u, M.step s a = some u ∧ M.exec u as = some t := by
  simp [exec, Option.bind_eq_some_iff]

/-- A run of two lists of actions is a run of the one and then of the other. -/
theorem exec_append {s t : σ} {as bs : List α} :
    M.exec s (as ++ bs) = some t ↔ ∃ u, M.exec s as = some u ∧ M.exec u bs = some t := by
  induction as generalizing s with
  | nil => simp
  | cons a as ih =>
    simp only [List.cons_append, exec_cons, ih]
    constructor
    · rintro ⟨u, hu, w, hw, ht⟩
      exact ⟨w, ⟨u, hu, hw⟩, ht⟩
    · rintro ⟨w, ⟨u, hu, hw⟩, ht⟩
      exact ⟨u, hu, w, hw, ht⟩

variable {M}

theorem Reachable.of_init {s : σ} (h : M.init s) : M.Reachable s := ⟨s, [], h, rfl⟩

theorem Reachable.step {s t : σ} {a : α} (h : M.Reachable s) (hstep : M.step s a = some t) :
    M.Reachable t := by
  obtain ⟨r, as, hr, hrun⟩ := h
  refine ⟨r, as ++ [a], hr, (exec_append M).2 ⟨s, hrun, ?_⟩⟩
  exact (exec_cons M).2 ⟨t, hstep, rfl⟩

theorem Reachable.exec {s t : σ} {as : List α} (h : M.Reachable s) (hrun : M.exec s as = some t) :
    M.Reachable t := by
  obtain ⟨r, bs, hr, hbs⟩ := h
  exact ⟨r, bs ++ as, hr, (exec_append M).2 ⟨s, hbs, hrun⟩⟩

theorem Reachable.of_isSome {s : σ} (hs : M.init s) (as : List α) (h : (M.exec s as).isSome) :
    M.Reachable ((M.exec s as).get h) := ⟨s, as, hs, (Option.some_get h).symm⟩

/-- What one step preserves, a run preserves. -/
theorem exec_invariant {I : σ → Prop} (hstep : ∀ s a t, I s → M.step s a = some t → I t)
    {s t : σ} {as : List α} (hs : I s) (hrun : M.exec s as = some t) : I t := by
  induction as generalizing s with
  | nil =>
    cases hrun
    exact hs
  | cons a as ih =>
    obtain ⟨u, hu, hrest⟩ := (exec_cons M).1 hrun
    exact ih (hstep s a u hs hu) hrest

/-- A predicate that holds initially and is preserved by every step holds in every reachable
state. -/
theorem invariant {I : σ → Prop} (hinit : ∀ s, M.init s → I s)
    (hstep : ∀ s a t, I s → M.step s a = some t → I t) {t : σ} (h : M.Reachable t) : I t := by
  obtain ⟨s, as, hs, hrun⟩ := h
  exact exec_invariant hstep (hinit s hs) hrun

/-- `invariant` for a predicate whose preservation needs what is known of reachable states. -/
theorem invariant_of_reachable {I : σ → Prop} (hinit : ∀ s, M.init s → I s)
    (hstep : ∀ s a t, M.Reachable s → I s → M.step s a = some t → I t) {t : σ}
    (h : M.Reachable t) : I t := by
  obtain ⟨s, as, hs, hrun⟩ := h
  have hboth : ∀ s a u, (M.Reachable s ∧ I s) → M.step s a = some u → M.Reachable u ∧ I u :=
    fun s a u hs hu => ⟨hs.1.step hu, hstep s a u hs.1 hs.2 hu⟩
  exact (exec_invariant hboth ⟨.of_init hs, hinit s hs⟩ hrun).2

/-- A rank that every step lowers bounds the length of a run. -/
theorem length_add_rank_le (rank : σ → Nat) {I : σ → Prop}
    (hI : ∀ s a t, I s → M.step s a = some t → I t)
    (hrank : ∀ s a t, I s → M.step s a = some t → rank t < rank s)
    {s t : σ} {as : List α} (hs : I s) (hrun : M.exec s as = some t) :
    as.length + rank t ≤ rank s := by
  induction as generalizing s with
  | nil =>
    cases hrun
    exact Nat.le_of_eq (Nat.zero_add _)
  | cons a as ih =>
    obtain ⟨u, hu, hrest⟩ := (exec_cons M).1 hrun
    have hlower := hrank s a u hs hu
    have hle := ih (hI s a u hs hu) hrest
    rw [List.length_cons]
    omega

theorem Meets.mono {C D : σ → α → Prop} (hCD : ∀ s a, C s a → D s a) {s : σ} {as : List α}
    (h : M.Meets C s as) : M.Meets D s as := by
  induction as generalizing s with
  | nil => trivial
  | cons a as ih => exact ⟨hCD s a h.1, fun t ht => ih (h.2 t ht)⟩

theorem Throughout.mono {P Q : σ → Prop} (hPQ : ∀ s, P s → Q s) {s : σ} {as : List α}
    (h : M.Throughout P s as) : M.Throughout Q s as := by
  induction as generalizing s with
  | nil => exact hPQ s h
  | cons a as ih => exact ⟨hPQ s h.1, fun t ht => ih (h.2 t ht)⟩

/-- On a concrete run a decidable condition can be checked by running it. -/
instance decidableMeets (C : σ → α → Prop) [∀ s a, Decidable (C s a)] :
    ∀ s as, Decidable (M.Meets C s as)
  | _, [] => .isTrue trivial
  | s, a :: as =>
    match hstep : M.step s a with
    | none => decidable_of_iff (C s a) ⟨fun h => ⟨h, fun t ht => by simp [hstep] at ht⟩, (·.1)⟩
    | some t =>
      have := decidableMeets C t as
      decidable_of_iff (C s a ∧ M.Meets C t as)
        ⟨fun h => ⟨h.1, fun u hu => by rw [← Option.some.inj (hstep.symm.trans hu)]; exact h.2⟩,
          fun h => ⟨h.1, h.2 t hstep⟩⟩

theorem throughout_head {P : σ → Prop} {s : σ} {as : List α} (h : M.Throughout P s as) : P s := by
  cases as with
  | nil => exact h
  | cons a as => exact h.1

/-- `Throughout` speaks about the states the prefixes of the run end in. -/
theorem throughout_iff_prefix {P : σ → Prop} {s : σ} {as : List α} :
    M.Throughout P s as ↔ ∀ pre t, pre <+: as → M.exec s pre = some t → P t := by
  induction as generalizing s with
  | nil =>
    constructor
    · intro h pre t hpre ht
      rw [List.prefix_nil.1 hpre] at ht
      cases ht
      exact h
    · intro h
      exact h [] s (List.prefix_refl _) rfl
  | cons a as ih =>
    constructor
    -- a prefix is empty or starts with the first step; the tail is one of the rest of the run
    · rintro ⟨hs, hrest⟩ pre t hpre ht
      cases pre with
      | nil =>
        cases ht
        exact hs
      | cons b pre =>
        obtain ⟨rfl, hpre'⟩ := List.cons_prefix_cons.1 hpre
        obtain ⟨u, hu, ht'⟩ := (exec_cons M).1 ht
        exact (ih.1 (hrest u hu)) pre t hpre' ht'
    · intro h
      refine ⟨h [] s (List.nil_prefix) rfl, fun u hu => ih.2 fun pre t hpre ht => ?_⟩
      exact h (a :: pre) t (List.cons_prefix_cons.2 ⟨rfl, hpre⟩) ((exec_cons M).2 ⟨u, hu, ht⟩)

/-- If, under the invariant `I`, a step leads to a state with `P` exactly when it is taken under the
condition `C`, then a run has `P` throughout exactly when all its steps meet `C`. -/
theorem throughout_iff_meets {I P : σ → Prop} {C : σ → α → Prop}
    (hI : ∀ s a t, I s → M.step s a = some t → I t)
    (hstep : ∀ s a t, I s → P s → M.step s a = some t → (P t ↔ C s a))
    {s t : σ} {as : List α} (hs : I s) (hP : P s) (hrun : M.exec s as = some t) :
    M.Throughout P s as ↔ M.Meets C s as := by
  induction as generalizing s with
  | nil => exact ⟨fun _ => trivial, fun _ => hP⟩
  | cons a as ih =>
    obtain ⟨u, hu, hrest⟩ := (exec_cons M).1 hrun
    have hiff := hstep s a u hs hP hu
    constructor
    · rintro ⟨-, htail⟩
      have hPu : P u := throughout_head (htail u hu)
      refine ⟨hiff.1 hPu, fun w hw => ?_⟩
      cases hu.symm.trans hw
      exact (ih (hI s a u hs hu) hPu hrest).1 (htail u hu)
    · rintro ⟨hC, htail⟩
      refine ⟨hP, fun w hw => ?_⟩
      cases hu.symm.trans hw
      exact (ih (hI s a u hs hu) (hiff.2 hC) hrest).2 (htail u hu)

/-- Two conditions that agree under the invariant `I` are met by the same runs. -/
theorem meets_congr {I : σ → Prop} {C D : σ → α → Prop}
    (hI : ∀ s a t, I s → M.step s a = some t → I t) (hCD : ∀ s a, I s → (C s a ↔ D s a))
    {s : σ} {as : List α} (hs : I s) : M.Meets C s as ↔ M.Meets D s as := by
  induction as generalizing s with
  | nil => exact Iff.rfl
  | cons a as ih =>
    constructor
    · rintro ⟨hC, htail⟩
      exact ⟨(hCD s a hs).1 hC, fun t ht => (ih (hI s a t hs ht)).1 (htail t ht)⟩
    · rintro ⟨hD, htail⟩
      exact ⟨(hCD s a hs).2 hD, fun t ht => (ih (hI s a t hs ht)).2 (htail t ht)⟩

/-- A condition that follows from what holds throughout a run is met by it. -/
theorem meets_of_throughout {P : σ → Prop} {C : σ → α → Prop} {s : σ} {as : List α}
    (h : M.Throughout P s as) (hC : ∀ s a, P s → C s a) : M.Meets C s as := by
  induction as generalizing s with
  | nil => trivial
  | cons a as ih => exact ⟨hC s a h.1, fun t ht => ih (h.2 t ht)⟩

/-- The half of `throughout_iff_meets` that needs the condition to be sufficient only. -/
theorem throughout_of_meets {I P : σ → Prop} {C : σ → α → Prop}
    (hI : ∀ s a t, I s → M.step s a = some t → I t)
    (hstep : ∀ s a t, I s → P s → C s a → M.step s a = some t → P t)
    {s : σ} {as : List α} (hs : I s) (hP : P s) (hmeets : M.Meets C s as) :
    M.Throughout P s as := by
  induction as generalizing s with
  | nil => exact hP
  | cons a as ih =>
    obtain ⟨hC, htail⟩ := hmeets
    exact ⟨hP, fun u hu => ih (hI s a u hs hu) (hstep s a u hs hP hC hu) (htail u hu)⟩

end Lts

end LocalPost.Core
