import Mathlib.Data.List.Sort

/-!
# Sorting by a key, the greatest first

Insertion sort keeps the order of the elements with equal keys.
-/

set_option autoImplicit false

namespace LocalPost.Core

universe u

variable {α : Type u} {key : α → Nat} {before : α → α → Prop}

/-- The order after sorting: the greater key first, the old order between equal keys. -/
def KeyOrder (key : α → Nat) (before : α → α → Prop) (a b : α) : Prop :=
  key b < key a ∨ key b = key a ∧ before a b

theorem KeyOrder.key_le {a b : α} (h : KeyOrder key before a b) : key b ≤ key a := by
  rcases h with h | ⟨h, -⟩ <;> omega

/-- Inserting an element that came before all the others. -/
theorem pairwise_orderedInsert {a : α} {l : List α} (hl : l.Pairwise (KeyOrder key before))
    (ha : ∀ b ∈ l, before a b) :
    (l.orderedInsert (fun a b => key b ≤ key a) a).Pairwise (KeyOrder key before) := by
  induction l with
  | nil => simp
  | cons b l ih =>
    rw [List.forall_mem_cons] at ha
    obtain ⟨hb, hl⟩ := List.pairwise_cons.1 hl
    rw [List.orderedInsert_cons]
    -- what stands behind the new element with the same key came after it in `before`
    have hfirst : ∀ c, key c ≤ key a → before a c → KeyOrder key before a c := by
      intro c hle hbefore
      rcases Nat.lt_or_eq_of_le hle with hlt | heq
      · exact .inl hlt
      · exact .inr ⟨heq, hbefore⟩
    -- it goes in front of the first element with a key that is not below its own
    by_cases hkey : key b ≤ key a
    · rw [if_pos hkey, List.pairwise_cons, List.pairwise_cons]
      refine ⟨fun c hc => ?_, hb, hl⟩
      rcases List.mem_cons.1 hc with rfl | hc
      · exact hfirst c hkey ha.1
      · exact hfirst c (Nat.le_trans (hb c hc).key_le hkey) (ha.2 c hc)
    · rw [if_neg hkey, List.pairwise_cons]
      refine ⟨fun c hc => ?_, ih hl ha.2⟩
      rcases (List.mem_orderedInsert _).1 hc with rfl | hc
      · exact .inl (Nat.lt_of_not_le hkey)
      · exact hb c hc

theorem pairwise_insertionSort_key {l : List α} (h : l.Pairwise before) :
    (l.insertionSort fun a b => key b ≤ key a).Pairwise (KeyOrder key before) := by
  induction l with
  | nil => exact List.Pairwise.nil
  | cons a l ih =>
    obtain ⟨ha, hl⟩ := List.pairwise_cons.1 h
    rw [List.insertionSort_cons]
    exact pairwise_orderedInsert (ih hl) fun b hb => ha b ((List.mem_insertionSort _).1 hb)

end LocalPost.Core
