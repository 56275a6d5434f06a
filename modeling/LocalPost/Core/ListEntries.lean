import Mathlib.Algebra.GroupWithZero.Nat
import Mathlib.Data.List.Basic
import Mathlib.Data.List.Count

/-!
# Entries of a list

How the entries of a list change when one of them is replaced or modified and when one is added at
the end, and how a count over the list changes with them. A state that keeps its parties in a list
is read entry by entry.
-/

set_option autoImplicit false

namespace LocalPost.Core

universe u

theorem getElem?_modify_iff {α : Type u} {l : List α} {i k : Nat} {f : α → α} {b : α} :
    (l.modify i f)[k]? = some b ↔ ∃ a, l[k]? = some a ∧ (if i = k then f a else a) = b := by
  rw [List.getElem?_modify]
  simp

/-- An entry after one entry of a list has been replaced. -/
theorem getElem?_set_iff {α : Type u} {l : List α} {i k : Nat} {a b c : α} (hi : l[i]? = some a) :
    (l.set i b)[k]? = some c ↔ if i = k then b = c else l[k]? = some c := by
  rw [List.getElem?_set]
  split
  · rw [if_pos (List.getElem?_eq_some_iff.1 hi).1, Option.some.injEq]
  · exact Iff.rfl

/-- Replacing one entry changes a count by that entry only. -/
theorem countP_set_add {α : Type u} {l : List α} {i : Nat} {a : α} {p : α → Bool} (b : α)
    (hi : l[i]? = some a) :
    (l.set i b).countP p + (if p a then 1 else 0) = l.countP p + (if p b then 1 else 0) := by
  obtain ⟨hlt, helem⟩ := List.getElem?_eq_some_iff.1 hi
  rw [List.countP_set hlt, helem]
  by_cases hpa : p a = true
  · have hpos : 0 < l.countP p := List.countP_pos_iff.2 ⟨a, List.mem_of_getElem? hi, hpa⟩
    rw [if_pos hpa]
    omega
  · rw [if_neg hpa]
    omega

/-- Replacing one entry changes a sum by that entry only. -/
theorem sum_map_set_add {α : Type u} {l : List α} {i : Nat} {a : α} (w : α → Nat) (b : α)
    (hi : l[i]? = some a) : ((l.set i b).map w).sum + w a = (l.map w).sum + w b := by
  induction l generalizing i with
  | nil => cases hi
  | cons c l ih =>
    cases i with
    | zero =>
      cases hi
      simp only [List.set_cons_zero, List.map_cons, List.sum_cons]
      omega
    | succ i =>
      have hrest := ih (List.getElem?_cons_succ ▸ hi)
      simp only [List.set_cons_succ, List.map_cons, List.sum_cons]
      omega

/-- Of finitely many values one is the largest. -/
theorem exists_forall_mem_le {α : Type u} (l : List α) (w : α → Nat) : ∃ m, ∀ a ∈ l, w a ≤ m := by
  induction l with
  | nil => exact ⟨0, fun a ha => absurd ha List.not_mem_nil⟩
  | cons b l ih =>
    obtain ⟨m, hm⟩ := ih
    refine ⟨max (w b) m, fun a ha => ?_⟩
    rcases List.mem_cons.1 ha with rfl | ha
    · exact Nat.le_max_left _ _
    · exact Nat.le_trans (hm a ha) (Nat.le_max_right _ _)

/-- Modifying one entry changes a count by that entry only. -/
theorem countP_modify_add {α : Type u} {l : List α} {i : Nat} {a : α} {p : α → Bool} (f : α → α)
    (hi : l[i]? = some a) :
    (l.modify i f).countP p + (if p a then 1 else 0) =
      l.countP p + (if p (f a) then 1 else 0) := by
  have heq : l.modify i f = l.set i (f a) := by
    apply List.ext_getElem?
    intro k
    ext b
    rw [getElem?_modify_iff, getElem?_set_iff hi]
    split
    · rename_i hk
      subst hk
      simp [hi]
    · simp
  rw [heq]
  exact countP_set_add (f a) hi

/-- A property that the change of an entry keeps still holds of some entry. -/
theorem exists_mem_modify {α : Type u} {l : List α} {i : Nat} {f : α → α} {p : α → Prop}
    (hf : ∀ a, p a → p (f a)) (h : ∃ a ∈ l, p a) : ∃ a ∈ l.modify i f, p a := by
  obtain ⟨a, ha, hp⟩ := h
  obtain ⟨k, hk⟩ := List.mem_iff_getElem?.1 ha
  refine ⟨_, List.mem_of_getElem? (getElem?_modify_iff.2 ⟨a, hk, rfl⟩), ?_⟩
  split
  · exact hf a hp
  · exact hp

/-- A list extended by one entry has its old entries and the new one. -/
theorem getElem?_concat_iff {α : Type u} {l : List α} {k : Nat} {a b : α} :
    (l ++ [a])[k]? = some b ↔ l[k]? = some b ∨ k = l.length ∧ a = b := by
  constructor
  · intro h
    by_cases hk : k < l.length
    · rw [List.getElem?_append_left hk] at h
      exact .inl h
    · rw [List.getElem?_append_right (Nat.le_of_not_lt hk)] at h
      obtain ⟨hlt, hab⟩ := List.getElem?_eq_some_iff.1 h
      have hsub : k - l.length = 0 := by simpa using hlt
      simp only [hsub, List.getElem_cons_zero] at hab
      exact .inr ⟨by omega, hab⟩
  · rintro (h | ⟨rfl, rfl⟩)
    · rw [List.getElem?_append_left (List.getElem?_eq_some_iff.1 h).1]
      exact h
    · simp

/-- Changing the last entry of a list changes what was put there. -/
theorem modify_concat {α : Type u} {l : List α} {a : α} {f : α → α} :
    (l ++ [a]).modify l.length f = l ++ [f a] := by
  apply List.ext_getElem?
  intro k
  ext b
  rw [getElem?_modify_iff, getElem?_concat_iff]
  constructor
  · rintro ⟨x, hx, rfl⟩
    rcases getElem?_concat_iff.1 hx with hx | ⟨rfl, rfl⟩
    · have hlt := (List.getElem?_eq_some_iff.1 hx).1
      rw [if_neg (by omega)]
      exact .inl hx
    · rw [if_pos rfl]
      exact .inr ⟨rfl, rfl⟩
  · rintro (hb | ⟨rfl, rfl⟩)
    · have hlt := (List.getElem?_eq_some_iff.1 hb).1
      exact ⟨b, getElem?_concat_iff.2 (.inl hb), if_neg (by omega)⟩
    · exact ⟨a, getElem?_concat_iff.2 (.inr ⟨rfl, rfl⟩), if_pos rfl⟩

/-- Two lists without duplicates that agree on the entries that `g` keeps. -/
theorem perm_filterMap_of_mem_iff {α : Type u} {β : Type u} {l₁ l₂ : List α} {g : α → Option β}
    (h₁ : l₁.Nodup) (h₂ : l₂.Nodup) (h : ∀ a, (g a).isSome = true → (a ∈ l₁ ↔ a ∈ l₂)) :
    (l₁.filterMap g).Perm (l₂.filterMap g) := by
  have hfilter : ∀ l : List α, l.filterMap g = (l.filter fun a => (g a).isSome).filterMap g := by
    intro l
    rw [List.filterMap_filter]
    congr 1
    funext a
    cases g a <;> rfl
  rw [hfilter l₁, hfilter l₂]
  apply List.Perm.filterMap
  rw [List.perm_ext_iff_of_nodup (h₁.filter _) (h₂.filter _)]
  intro a
  rw [List.mem_filter, List.mem_filter]
  exact ⟨fun ha => ⟨(h a ha.2).1 ha.1, ha.2⟩, fun ha => ⟨(h a ha.2).2 ha.1, ha.2⟩⟩

/-- What `g` keeps of a list, by its positions. -/
theorem filterMap_eq_range {α : Type u} {β : Type u} (l : List α) (g : α → Option β) :
    l.filterMap g = (List.range l.length).filterMap fun i => (l[i]?).bind g := by
  induction l with
  | nil => rfl
  | cons a l ih =>
    rw [List.length_cons, List.range_succ_eq_map, List.filterMap_cons, List.filterMap_cons,
      List.filterMap_map]
    simp only [List.getElem?_cons_zero, Option.bind_some, Function.comp_def,
      List.getElem?_cons_succ]
    rw [ih]

/-- An entry of a list that has grown at the end is an old one or one of the new ones. -/
theorem split_grown {α : Type u} {l new left right : List α} {a : α}
    (h : l ++ new = left ++ a :: right) :
    (∃ rest, l = left ++ a :: rest) ∨ ∃ mid, left = l ++ mid ∧ new = mid ++ a :: right := by
  rcases List.append_eq_append_iff.1 h with ⟨mid, hleft, hnew⟩ | ⟨rest, hl, hrest⟩
  · exact Or.inr ⟨mid, hleft, hnew⟩
  · cases rest with
    | nil =>
      rw [List.append_nil] at hl
      exact Or.inr ⟨[], by rw [List.append_nil, hl], hrest.symm⟩
    | cons b rest =>
      rw [List.cons_append, List.cons.injEq] at hrest
      exact Or.inl ⟨rest, by rw [hl, ← hrest.1]⟩

/-- One more part behind the others. -/
theorem intercalate_concat {α : Type u} (sep : List α) {parts : List (List α)} (h : parts ≠ [])
    (part : List α) : sep.intercalate (parts ++ [part]) = sep.intercalate
    parts ++ (sep ++ part) := by
  induction parts with
  | nil => exact absurd rfl h
  | cons p parts ih =>
    cases parts with
    | nil =>
      rw [List.singleton_append, List.intercalate_cons_cons, List.intercalate_singleton,
        List.intercalate_singleton, List.append_assoc]
    | cons q parts =>
      have hrest : q :: parts ++ [part] ≠ [] :=
        List.append_ne_nil_of_right_ne_nil _ (List.cons_ne_nil _ _)
      rw [List.cons_append, List.intercalate_cons_of_ne_nil hrest, ih (List.cons_ne_nil q parts),
        List.intercalate_cons_of_ne_nil (List.cons_ne_nil q parts)]
      simp only [List.append_assoc]

/-- What an entry that is in neither of two lists delimits is the same. -/
theorem eq_of_append_cons {α : Type u} [DecidableEq α] {p q s t : List α} {x : α} (hp : x ∉ p)
    (hq : x ∉ q) (h : p ++ x :: s = q ++ x :: t) : p = q ∧ s = t := by
  have htake : ∀ r u : List α, x ∉ r → (r ++ x :: u).takeWhile (· ≠ x) = r := by
    intro r u hr
    have hall : ∀ y ∈ r, decide (y ≠ x) = true :=
      fun y hy => decide_eq_true fun heq => hr (heq ▸ hy)
    rw [List.takeWhile_append_of_pos hall]
    simp
  have heq : p = q := by rw [← htake p s hp, h, htake q t hq]
  rw [heq] at h
  exact ⟨heq, (List.cons.inj (List.append_cancel_left h)).2⟩

end LocalPost.Core
