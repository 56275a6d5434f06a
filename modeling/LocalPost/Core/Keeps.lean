import Mathlib.Data.List.Basic

/-!
# Programs that raise, and what they keep

A program over a state may return or raise, and what it has done to the state before it raises stays
done: `EStateM` without backtracking. `Triple P m Q E` says that from a state with `P` the program
returns in a state with `Q` of its result or raises in a state with `E`. `Keeps I` is the case of
one predicate in all three places.

The rules follow the constructs. `Triple.tryFinally` is the one for a resource that is switched and
switched back: the body may break `I` as long as it keeps `W`, and the `finally` part turns `W` into
`I`.
-/

set_option autoImplicit false

namespace LocalPost.Core

universe u

variable {ε σ α β : Type u}

/-- From `P` the program returns with `Q` or raises with `E`. -/
def Triple (P : σ → Prop) (m : EStateM ε σ α) (Q : α → σ → Prop) (E : σ → Prop) : Prop :=
  ∀ s, P s →
    match m s with
    | .ok a t => Q a t
    | .error _ t => E t

/-- The program keeps `I`, whether it returns or raises. -/
def Keeps (I : σ → Prop) (m : EStateM ε σ α) : Prop := Triple I m (fun _ => I) I

/-- The state that a program leaves. -/
def final (m : EStateM ε σ α) (s : σ) : σ :=
  match m s with
  | .ok _ t => t
  | .error _ t => t

/-- `try: x = m` with the exception as a value: the `except` clauses are a match on the result. -/
def attempt (m : EStateM ε σ α) : EStateM ε σ (Except ε α) := fun s =>
  match m s with
  | .ok a t => .ok (.ok a) t
  | .error e t => .ok (.error e) t

/-- `if c: m`. -/
def onlyIf (c : Prop) [Decidable c] (m : EStateM ε σ PUnit) : EStateM ε σ PUnit :=
  if c then m else pure ⟨⟩

/-- A triple with one predicate on both ways out is about the state that is left. -/
theorem Triple.final {P I : σ → Prop} {m : EStateM ε σ α} (h : Triple P m (fun _ => I) I) {s : σ}
    (hs : P s) : I (final m s) := by
  have hm := h s hs
  rw [Core.final]
  cases hrun : m s with
  | ok a t =>
    rw [hrun] at hm
    exact hm
  | error e t =>
    rw [hrun] at hm
    exact hm

theorem Keeps.final {I : σ → Prop} {m : EStateM ε σ α} (h : Keeps I m) {s : σ} (hs : I s) :
    I (final m s) := Triple.final h hs

/-! ## Rules -/

namespace Triple

variable {P P' I W E : σ → Prop} {Q Q' : α → σ → Prop} {R : β → σ → Prop} {m : EStateM ε σ α}

theorem pre (h : Triple P m Q E) (hP : ∀ s, P' s → P s) : Triple P' m Q E :=
  fun s hs => h s (hP s hs)

theorem pure {a : α} (h : ∀ s, P s → Q a s) : Triple (ε := ε) P (pure a) Q E := fun s hs => h s hs

theorem throw {e : ε} (h : ∀ s, P s → E s) : Triple (α := α) P (throw e) Q E := fun s hs => h s hs

theorem modify {f : σ → σ} {Q : PUnit → σ → Prop} (h : ∀ s, P s → Q ⟨⟩ (f s)) :
    Triple (ε := ε) P (modify f) Q E := fun s hs => h s hs

/-- A sequence: the second program starts from what the first returned. -/
theorem bind {f : α → EStateM ε σ β} (hm : Triple P m Q E) (hf : ∀ a, Triple (Q a) (f a) R E) :
    Triple P (m >>= f) R E := by
  intro s hs
  have hfirst := hm s hs
  change match EStateM.bind m f s with
    | .ok a t => R a t
    | .error _ t => E t
  rw [EStateM.bind]
  cases hrun : m s with
  | ok a t =>
    rw [hrun] at hfirst
    exact hf a t hfirst
  | error e t =>
    rw [hrun] at hfirst
    exact hfirst

/-- A program that looks at the state first. -/
theorem get_bind {f : σ → EStateM ε σ β} (hf : ∀ s, P s → Triple (fun t => t = s) (f s) R E) :
    Triple P (get >>= f) R E := fun s hs => hf s hs s rfl

/-- `attempt` turns the exception into a result. -/
theorem attempt {Q : Except ε α → σ → Prop} (hm : Triple P m (fun a => Q (.ok a)) fun t => ∀ e,
    Q (.error e) t) :
    Triple P (attempt m) Q E := by
  intro s hs
  have hfirst := hm s hs
  rw [Core.attempt]
  cases hrun : m s with
  | ok a t =>
    rw [hrun] at hfirst
    exact hfirst
  | error e t =>
    rw [hrun] at hfirst
    exact hfirst e

/-- What the last part raises takes the place of what the body raised or returned. -/
theorem tryFinally_run (m : EStateM ε σ α) (h : EStateM ε σ β) (s : σ) :
    tryFinally m h s =
      match m s with
      | .ok a t =>
        match h t with
        | .ok _ u => .ok a u
        | .error e u => .error e u
      | .error e t =>
        match h t with
        | .ok _ u => .error e u
        | .error e' u => .error e' u := by
  cases hrun : m s with
  | ok a t =>
    cases hend : h t <;>
      simp [tryFinally, tryFinally', Functor.map, EStateM.map, hrun, hend]
  | error e t =>
    cases hend : h t <;>
      simp [tryFinally, tryFinally', Functor.map, EStateM.map, hrun, hend]

/-- The body keeps `W` on every way out, and the last part leads from `W` to `I` on every way
out. -/
theorem tryFinally {h : EStateM ε σ β} (hm : Triple P m (fun _ => W) W)
    (hh : Triple W h (fun _ => I) I) : Triple P (tryFinally m h) (fun _ => I) I := by
  intro s hs
  have hbody := hm s hs
  rw [tryFinally_run]
  cases hrun : m s with
  -- the handler runs behind a result
  | ok a t =>
    rw [hrun] at hbody
    have hlast := hh t hbody
    cases hend : h t with
    | ok b u =>
      rw [hend] at hlast
      simp only [hend]
      exact hlast
    | error e u =>
      rw [hend] at hlast
      simp only [hend]
      exact hlast
  -- and behind an exception, from the state in which it was raised
  | error e t =>
    rw [hrun] at hbody
    have hlast := hh t hbody
    cases hend : h t with
    | ok b u =>
      rw [hend] at hlast
      simp only [hend]
      exact hlast
    | error e' u =>
      rw [hend] at hlast
      simp only [hend]
      exact hlast

end Triple

namespace Keeps

variable {I : σ → Prop} {m : EStateM ε σ α}

theorem pure (a : α) : Keeps (ε := ε) I (pure a) := Triple.pure fun _ hs => hs

theorem throw (e : ε) : Keeps (α := α) I (throw e) := Triple.throw fun _ hs => hs

theorem modify {f : σ → σ} (h : ∀ s, I s → I (f s)) : Keeps (ε := ε) I (modify f) := Triple.modify h

theorem bind {f : α → EStateM ε σ β} (hm : Keeps I m) (hf : ∀ a, Keeps I (f a)) :
    Keeps I (m >>= f) :=
  Triple.bind hm hf

theorem attempt (hm : Keeps I m) : Keeps I (attempt m) := by
  apply Triple.attempt
  intro s hs
  have hfirst := hm s hs
  cases hrun : m s with
  | ok a t =>
    rw [hrun] at hfirst
    exact hfirst
  | error e t =>
    rw [hrun] at hfirst
    exact fun _ => hfirst

theorem ite {c : Prop} [Decidable c] {m' : EStateM ε σ α} (hm : Keeps I m) (hm' : Keeps I m') :
    Keeps I (if c then m else m') := by
  split
  · exact hm
  · exact hm'

theorem onlyIf {c : Prop} [Decidable c] {m : EStateM ε σ PUnit} (hm : Keeps I m) :
    Keeps I (onlyIf c m) :=
  ite hm (pure _)

theorem get_bind {f : σ → EStateM ε σ β} (hf : ∀ s, Keeps I (f s)) : Keeps I (get >>= f) :=
  Triple.get_bind fun s hs => (hf s).pre fun _ ht => ht ▸ hs

end Keeps

end LocalPost.Core
