import Mathlib.Data.List.Basic
import Mathlib.Data.List.Nodup
import Mathlib.Data.List.Count

/-!
# Condition variables with a first-in first-out wait queue

The waiters of a condition variable stand in the order in which they fell asleep. `notify` wakes the
longest waiting one and `notifyAll` wakes all of them. A waiter whose timeout has passed takes
itself out of the queue (`drop`).

`woken` records the waiters that have been notified and have not tested their predicate again yet.
No operation reads it; it is there to say that a wake-up is still on its way. `Covered c p k` is the
statement that no wake-up is lost: as long as somebody sleeps, the `k` units of whatever the waiters
wait for are matched by as many woken threads that can still use them (`p`).
-/

set_option autoImplicit false

namespace LocalPost.Core

universe u

/-- A condition variable: the sleeping threads, longest waiting first, and the notified threads that
have not tested their predicate again yet. -/
structure Condition (τ : Type u) where
  waiters : List τ
  woken : List τ
  deriving DecidableEq, Repr

namespace Condition

variable {τ : Type u}

/-- A condition variable nobody waits on. -/
def empty : Condition τ := ⟨[], []⟩

/-- `t` falls asleep. -/
def wait (c : Condition τ) (t : τ) : Condition τ := { c with waiters := c.waiters ++ [t] }

/-- The longest waiting thread is notified. -/
def notify (c : Condition τ) : Condition τ :=
  match c.waiters with
  | [] => c
  | w :: ws => ⟨ws, c.woken ++ [w]⟩

/-- Every waiting thread is notified. -/
def notifyAll (c : Condition τ) : Condition τ := ⟨[], c.woken ++ c.waiters⟩

/-- `t` leaves the queue if it is still in it. -/
def drop [DecidableEq τ] (c : Condition τ) (t : τ) : Condition τ :=
  { c with waiters := c.waiters.erase t }

/-- `t` is back at the test of its predicate. -/
def recheck [DecidableEq τ] (c : Condition τ) (t : τ) : Condition τ :=
  { c with woken := c.woken.erase t }

/-- No thread stands in the queue twice, and no notified thread still stands in it. -/
def Distinct (c : Condition τ) : Prop := (c.waiters ++ c.woken).Nodup

/-- The threads in the queue satisfy `S`, the woken ones satisfy `W`, and no thread is counted
twice. -/
structure Holds (c : Condition τ) (S W : τ → Prop) : Prop where
  asleep : ∀ t ∈ c.waiters, S t
  onWay : ∀ t ∈ c.woken, W t
  distinct : c.Distinct

/-- While somebody sleeps, `k` units are matched by woken threads that satisfy `p`. -/
def Covered (c : Condition τ) (p : τ → Bool) (k : Int) : Prop :=
  c.waiters ≠ [] → k ≤ (c.woken.countP p : Int)

@[simp] theorem waiters_empty : (empty : Condition τ).waiters = [] := rfl

@[simp] theorem woken_empty : (empty : Condition τ).woken = [] := rfl

@[simp] theorem waiters_wait (c : Condition τ) (t : τ) :
    (c.wait t).waiters = c.waiters ++ [t] := rfl

@[simp] theorem woken_wait (c : Condition τ) (t : τ) : (c.wait t).woken = c.woken := rfl

@[simp] theorem waiters_notify (c : Condition τ) : c.notify.waiters = c.waiters.tail := by
  cases h : c.waiters <;> simp [notify, h]

@[simp] theorem waiters_notifyAll (c : Condition τ) : c.notifyAll.waiters = [] := rfl

@[simp] theorem woken_notifyAll (c : Condition τ) :
    c.notifyAll.woken = c.woken ++ c.waiters := rfl

theorem notifyAll_of_waiters_nil {c : Condition τ} (h : c.waiters = []) : c.notifyAll = c := by
  cases c with
  | mk waiters woken => simp_all [notifyAll]

theorem notify_of_waiters_nil {c : Condition τ} (h : c.waiters = []) : c.notify = c := by
  simp [notify, h]

theorem woken_notify_cons {c : Condition τ} {w : τ} {ws : List τ} (h : c.waiters = w :: ws) :
    c.notify.woken = c.woken ++ [w] := by
  simp [notify, h]

/-- Notifying only moves threads from the queue to the woken ones. -/
theorem mem_woken_notify {c : Condition τ} {t : τ} (h : t ∈ c.notify.woken) :
    t ∈ c.woken ∨ t ∈ c.waiters := by
  cases hw : c.waiters with
  | nil =>
    rw [notify_of_waiters_nil hw] at h
    exact Or.inl h
  | cons w ws =>
    rw [woken_notify_cons hw] at h
    simp only [List.mem_append, List.mem_singleton] at h
    rcases h with h | rfl
    · exact Or.inl h
    · exact Or.inr List.mem_cons_self

theorem mem_waiters_of_mem_notify {c : Condition τ} {t : τ} (h : t ∈ c.notify.waiters) :
    t ∈ c.waiters := by
  rw [waiters_notify] at h
  exact List.mem_of_mem_tail h

theorem perm_notify (c : Condition τ) :
    List.Perm (c.notify.waiters ++ c.notify.woken) (c.waiters ++ c.woken) := by
  cases h : c.waiters with
  | nil => simp [notify, h]
  | cons w ws =>
    simp only [notify, h, List.cons_append, ← List.append_assoc]
    exact List.perm_append_singleton w (ws ++ c.woken)

theorem Distinct.empty : (Condition.empty : Condition τ).Distinct := by simp [Distinct]

theorem Distinct.notify {c : Condition τ} (h : c.Distinct) : c.notify.Distinct :=
  (perm_notify c).nodup_iff.2 h

theorem Distinct.notifyAll {c : Condition τ} (h : c.Distinct) : c.notifyAll.Distinct := by
  have hperm : List.Perm (c.notifyAll.waiters ++ c.notifyAll.woken) (c.waiters ++ c.woken) := by
    simpa [Condition.notifyAll] using List.perm_append_comm
  exact hperm.nodup_iff.2 h

theorem Distinct.wait {c : Condition τ} (h : c.Distinct) {t : τ} (hq : t ∉ c.waiters)
    (hw : t ∉ c.woken) : (c.wait t).Distinct := by
  have hperm : List.Perm ((c.wait t).waiters ++ (c.wait t).woken)
      (t :: (c.waiters ++ c.woken)) := by
    simp
  rw [Distinct, hperm.nodup_iff, List.nodup_cons]
  exact ⟨by simp [hq, hw], h⟩

theorem Distinct.not_mem_woken {c : Condition τ} (h : c.Distinct) {t : τ} (hq : t ∈ c.waiters) :
    t ∉ c.woken :=
  fun hw => (List.nodup_append.1 h).2.2 t hq t hw rfl

section Erase

variable [DecidableEq τ]

@[simp] theorem waiters_drop (c : Condition τ) (t : τ) :
    (c.drop t).waiters = c.waiters.erase t := rfl

@[simp] theorem woken_drop (c : Condition τ) (t : τ) : (c.drop t).woken = c.woken := rfl

@[simp] theorem waiters_recheck (c : Condition τ) (t : τ) :
    (c.recheck t).waiters = c.waiters := rfl

@[simp] theorem woken_recheck (c : Condition τ) (t : τ) :
    (c.recheck t).woken = c.woken.erase t := rfl

theorem recheck_of_not_mem {c : Condition τ} {t : τ} (h : t ∉ c.woken) : c.recheck t = c := by
  cases c with
  | mk waiters woken =>
    simp only [recheck, mk.injEq, true_and]
    exact List.erase_of_not_mem h

theorem Distinct.drop {c : Condition τ} (h : c.Distinct) (t : τ) : (c.drop t).Distinct :=
  h.sublist (List.Sublist.append List.erase_sublist (List.Sublist.refl _))

theorem Distinct.recheck {c : Condition τ} (h : c.Distinct) (t : τ) : (c.recheck t).Distinct :=
  h.sublist (List.Sublist.append (List.Sublist.refl _) List.erase_sublist)

theorem Distinct.not_mem_recheck {c : Condition τ} (h : c.Distinct) (t : τ) :
    t ∉ (c.recheck t).woken := by
  have hn : c.woken.Nodup := (List.nodup_append.1 h).2.1
  simpa using hn.not_mem_erase

end Erase

/-! ## Rules for `Holds` -/

section Holds

variable {c : Condition τ} {S W S' W' : τ → Prop}

theorem Holds.empty : (Condition.empty : Condition τ).Holds S W :=
  ⟨by simp, by simp, .empty⟩

/-- The predicates may change as long as the threads concerned keep them. -/
theorem Holds.mono (h : c.Holds S W) (hS : ∀ t ∈ c.waiters, S t → S' t)
    (hW : ∀ t ∈ c.woken, W t → W' t) : c.Holds S' W' :=
  ⟨fun t ht => hS t ht (h.asleep t ht), fun t ht => hW t ht (h.onWay t ht), h.distinct⟩

theorem Holds.notify (h : c.Holds S W) (hSW : ∀ t, S t → W t) : c.notify.Holds S W where
  asleep t ht := h.asleep t (mem_waiters_of_mem_notify ht)
  onWay t ht := (mem_woken_notify ht).elim (h.onWay t) fun hq => hSW t (h.asleep t hq)
  distinct := h.distinct.notify

theorem Holds.notifyAll (h : c.Holds S W) (hSW : ∀ t, S t → W t) : c.notifyAll.Holds S' W where
  asleep := by simp
  onWay t ht := (List.mem_append.1 ht).elim (h.onWay t) fun hq => hSW t (h.asleep t hq)
  distinct := h.distinct.notifyAll

theorem Holds.wait (h : c.Holds S W) {t : τ} (hS : S t) (hq : t ∉ c.waiters) (hw : t ∉ c.woken) :
    (c.wait t).Holds S W where
  asleep u hu := by
    simp only [waiters_wait, List.mem_append, List.mem_singleton] at hu
    rcases hu with hu | rfl
    · exact h.asleep u hu
    · exact hS
  onWay := h.onWay
  distinct := h.distinct.wait hq hw

variable [DecidableEq τ]

theorem Holds.drop (h : c.Holds S W) (t : τ) : (c.drop t).Holds S W where
  asleep u hu := h.asleep u (List.mem_of_mem_erase hu)
  onWay := h.onWay
  distinct := h.distinct.drop t

theorem Holds.recheck (h : c.Holds S W) (t : τ) : (c.recheck t).Holds S W where
  asleep := h.asleep
  onWay u hu := h.onWay u (List.mem_of_mem_erase hu)
  distinct := h.distinct.recheck t

end Holds

/-! ## Rules for `Covered` -/

variable {c : Condition τ} {p : τ → Bool} {k : Int}

theorem Covered.of_waiters_nil (h : c.waiters = []) : Covered c p k := fun hne => absurd h hne

theorem Covered.of_nonpos (h : k ≤ 0) : Covered c p k :=
  fun _ => Int.le_trans h (Int.natCast_nonneg _)

theorem Covered.mono {k' : Int} (h : Covered c p k) (hk : k' ≤ k) : Covered c p k' :=
  fun hne => Int.le_trans hk (h hne)

/-- The woken threads that count may be judged by a weaker predicate. -/
theorem Covered.imp {q : τ → Bool} (h : Covered c p k)
    (hpq : ∀ t ∈ c.woken, p t = true → q t = true) : Covered c q k := by
  intro hne
  have hle : c.woken.countP p ≤ c.woken.countP q := List.countP_mono_left hpq
  have hk := h hne
  omega

/-- A notification covers one more unit, provided the notified thread can use it. -/
theorem Covered.notify (h : Covered c p k) (hp : ∀ t ∈ c.waiters, p t = true) :
    Covered c.notify p (k + 1) := by
  intro hne
  cases hw : c.waiters with
  | nil => simp [hw] at hne
  | cons w ws =>
    have hk := h (by simp [hw])
    have hpw : p w = true := hp w (by simp [hw])
    rw [woken_notify_cons hw, List.countP_append, List.countP_singleton, if_pos hpw]
    push_cast
    omega

theorem Covered.drop [DecidableEq τ] (h : Covered c p k) (t : τ) : Covered (c.drop t) p k := by
  intro hne
  refine h fun hnil => hne ?_
  simp [hnil]

/-- A woken thread that is back at its test covers one unit less. -/
theorem Covered.recheck [DecidableEq τ] (h : Covered c p k) (t : τ) :
    Covered (c.recheck t) p (k - 1) := by
  intro hne
  have hk := h hne
  have hcount : c.woken.countP p ≤ (c.woken.erase t).countP p + 1 := by
    by_cases ht : t ∈ c.woken
    · rw [(List.perm_cons_erase ht).countP_eq p, List.countP_cons]
      split <;> omega
    · rw [List.erase_of_not_mem ht]
      omega
  simp only [woken_recheck]
  omega

/-- A woken thread that cannot use a unit covers none. -/
theorem Covered.recheck_of_not [DecidableEq τ] (h : Covered c p k) {t : τ} (ht : p t = false) :
    Covered (c.recheck t) p k := by
  intro hne
  have hk := h hne
  by_cases hmem : t ∈ c.woken
  · rw [(List.perm_cons_erase hmem).countP_eq p, List.countP_cons] at hk
    simpa [ht] using hk
  · rw [recheck_of_not_mem hmem]
    exact hk

end Condition

end LocalPost.Core
