import Mathlib.Data.List.Nodup

/-!
# Dictionaries that keep the order of insertion

A dictionary is the list of its items in the order in which the keys came. Setting a key that is
there replaces its value in place, any other key goes to the end.
-/

set_option autoImplicit false

namespace LocalPost.Core

universe u v

/-- A dictionary as the list of its items. -/
abbrev Dict (κ : Type u) (ν : Type v) := List (κ × ν)

namespace Dict

variable {κ : Type u} {ν : Type v} [DecidableEq κ]

/-- `d.get(k)`. -/
def get? (k : κ) : Dict κ ν → Option ν
  | [] => none
  | (k', x) :: d => if k' = k then some x else get? k d

/-- `d[k] = x`. -/
def set (k : κ) (x : ν) : Dict κ ν → Dict κ ν
  | [] => [(k, x)]
  | (k', x') :: d => if k' = k then (k, x) :: d else (k', x') :: set k x d

/-- The keys in order. -/
def keys (d : Dict κ ν) : List κ := d.map Prod.fst

theorem get?_cons (k : κ) (e : κ × ν) (d : Dict κ ν) :
    get? k (e :: d) = if e.1 = k then some e.2 else get? k d := rfl

theorem set_cons (k : κ) (x : ν) (e : κ × ν) (d : Dict κ ν) :
    set k x (e :: d) = if e.1 = k then (k, x) :: d else e :: set k x d := rfl

omit [DecidableEq κ] in
@[simp] theorem keys_cons (e : κ × ν) (d : Dict κ ν) : keys (e :: d) = e.1 :: keys d := rfl

/-- A lookup after `set` finds the new value under the key itself, and the old one under any other.
-/
theorem get?_set (k j : κ) (x : ν) (d : Dict κ ν) :
    get? j (set k x d) = if k = j then some x else get? j d := by
  induction d with
  | nil => rfl
  | cons e d ih =>
    rw [set_cons]
    by_cases hk : e.1 = k
    · rw [if_pos hk, get?_cons, get?_cons, hk]
      split <;> rfl
    · rw [if_neg hk, get?_cons, get?_cons, ih]
      by_cases hj : e.1 = j
      · rw [if_pos hj, if_pos hj, if_neg (fun h => hk (hj.trans h.symm))]
      · rw [if_neg hj, if_neg hj]

@[simp] theorem get?_set_self (k : κ) (x : ν) (d : Dict κ ν) : get? k (set k x d) = some x := by
  rw [get?_set, if_pos rfl]

/-- Setting a key keeps the keys in their order; a new one comes last. -/
theorem keys_set (k : κ) (x : ν) (d : Dict κ ν) :
    keys (set k x d) = if k ∈ keys d then keys d else keys d ++ [k] := by
  induction d with
  | nil => rfl
  | cons e d ih =>
    rw [set_cons, keys_cons]
    by_cases hk : e.1 = k
    · rw [if_pos hk, keys_cons, hk, if_pos List.mem_cons_self]
    · rw [if_neg hk, keys_cons, ih]
      by_cases hmem : k ∈ keys d
      · rw [if_pos hmem, if_pos (List.mem_cons_of_mem _ hmem)]
      · rw [if_neg hmem, if_neg, List.cons_append]
        exact fun h => (List.mem_cons.1 h).elim (fun h => hk h.symm) hmem

theorem mem_keys_set {k j : κ} {x : ν} {d : Dict κ ν} :
    j ∈ keys (set k x d) ↔ j = k ∨ j ∈ keys d := by
  rw [keys_set]
  split
  · rename_i hmem
    constructor
    · exact .inr
    · rintro (rfl | h)
      · exact hmem
      · exact h
  · rw [List.mem_append, List.mem_singleton, or_comm]

theorem mem_set {e : κ × ν} {k : κ} {x : ν} {d : Dict κ ν} (h : e ∈ set k x d) :
    e ∈ d ∨ e = (k, x) := by
  induction d with
  | nil => exact .inr (List.mem_singleton.1 h)
  | cons e' d ih =>
    rw [set_cons] at h
    split at h
    · rcases List.mem_cons.1 h with rfl | hmem
      · exact .inr rfl
      · exact .inl (List.mem_cons_of_mem _ hmem)
    · rcases List.mem_cons.1 h with rfl | hmem
      · exact .inl List.mem_cons_self
      · exact (ih hmem).imp (List.mem_cons_of_mem _) id

/-- Setting a key keeps the keys distinct. -/
theorem nodup_keys_set {k : κ} {x : ν} {d : Dict κ ν} (h : (keys d).Nodup) :
    (keys (set k x d)).Nodup := by
  rw [keys_set]
  split
  · exact h
  · rename_i hmem
    rw [List.nodup_append]
    refine ⟨h, List.nodup_singleton k, fun a ha b hb => ?_⟩
    rw [List.mem_singleton.1 hb]
    rintro rfl
    exact hmem ha

theorem isSome_get?_iff {k : κ} {d : Dict κ ν} : (get? k d).isSome = true ↔ k ∈ keys d := by
  induction d with
  | nil => simp [get?, keys]
  | cons e d ih =>
    rw [get?_cons, keys_cons, List.mem_cons, ← ih]
    by_cases hk : e.1 = k
    · simp [hk]
    · simp [hk, Ne.symm hk]

/-- In a dictionary every key stands once, so an item is what its key gives. -/
theorem get?_eq_some_iff {k : κ} {x : ν} {d : Dict κ ν} (h : (keys d).Nodup) :
    get? k d = some x ↔ (k, x) ∈ d := by
  induction d with
  | nil => simp [get?]
  | cons e d ih =>
    obtain ⟨k', x'⟩ := e
    obtain ⟨hnot, hd⟩ := List.nodup_cons.1 h
    rw [get?_cons, List.mem_cons, Prod.mk.injEq]
    by_cases hk : k' = k
    · subst hk
      rw [if_pos rfl, Option.some.injEq]
      constructor
      · rintro rfl
        exact .inl ⟨rfl, rfl⟩
      · rintro (⟨-, rfl⟩ | hmem)
        · rfl
        · exact absurd (List.mem_map_of_mem hmem) hnot
    · rw [if_neg hk, ih hd]
      simp [Ne.symm hk]

/-! ## Setting several items -/

/-- `d.update(l)`: the items are set one after the other. -/
def setAll (d : Dict κ ν) (l : List (κ × ν)) : Dict κ ν := l.foldl (fun d e => set e.1 e.2 d) d

@[simp] theorem setAll_nil (d : Dict κ ν) : setAll d [] = d := rfl

@[simp] theorem setAll_cons (d : Dict κ ν) (e : κ × ν) (l : List (κ × ν)) :
    setAll d (e :: l) = setAll (set e.1 e.2 d) l := rfl

theorem set_of_not_mem {k : κ} {x : ν} {d : Dict κ ν} (h : k ∉ keys d) :
    set k x d = d ++ [(k, x)] := by
  induction d with
  | nil => rfl
  | cons e d ih =>
    rw [keys_cons, List.mem_cons, not_or] at h
    rw [set_cons, if_neg (Ne.symm h.1), ih h.2, List.cons_append]

theorem filter_set_of_not {p : κ → Bool} {k : κ} (hk : p k = false) (x : ν) (d : Dict κ ν) :
    (set k x d).filter (fun e => p e.1) = d.filter fun e => p e.1 := by
  induction d with
  | nil => simp [set, hk]
  | cons e d ih =>
    rw [set_cons]
    by_cases he : e.1 = k
    · rw [if_pos he, List.filter_cons_of_neg (by simp [hk]),
        List.filter_cons_of_neg (by simp [he, hk])]
    · rw [if_neg he, List.filter_cons, List.filter_cons, ih]

theorem get?_setAll_of_not_mem {k : κ} {l : List (κ × ν)} (h : k ∉ keys l) (d : Dict κ ν) :
    get? k (setAll d l) = get? k d := by
  induction l generalizing d with
  | nil => rfl
  | cons e l ih =>
    rw [keys_cons, List.mem_cons, not_or] at h
    rw [setAll_cons, ih h.2, get?_set, if_neg (Ne.symm h.1)]

/-- What holds of the value there and of every value set holds of the value at the end. -/
theorem get?_setAll_inv {P : ν → Prop} {k : κ} {d : Dict κ ν} {l : List (κ × ν)}
    (hd : ∃ x, get? k d = some x ∧ P x) (hl : ∀ e ∈ l, P e.2) :
    ∃ x, get? k (setAll d l) = some x ∧ P x := by
  induction l generalizing d with
  | nil => exact hd
  | cons e l ih =>
    refine ih ?_ fun e' he' => hl e' (List.mem_cons_of_mem _ he')
    rw [get?_set]
    split
    · exact ⟨e.2, rfl, hl e List.mem_cons_self⟩
    · exact hd

/-- A lookup finds the entry of the list first, and then that of the dictionary. -/
theorem get?_setAll {l : List (κ × ν)} (h : (keys l).Nodup) (k : κ) (d : Dict κ ν) :
    get? k (setAll d l) = (get? k l).or (get? k d) := by
  induction l generalizing d with
  | nil => rfl
  | cons e l ih =>
    obtain ⟨hnot, hl⟩ := List.nodup_cons.1 h
    rw [setAll_cons, get?_cons]
    by_cases hk : e.1 = k
    · -- The key comes only once, so nothing behind replaces it.
      subst hk
      rw [get?_setAll_of_not_mem hnot, get?_set_self, if_pos rfl, Option.some_or]
    · rw [ih hl, get?_set, if_neg hk, if_neg hk]

theorem mem_setAll {e : κ × ν} {d : Dict κ ν} {l : List (κ × ν)} (h : e ∈ setAll d l) :
    e ∈ d ∨ e ∈ l := by
  induction l generalizing d with
  | nil => exact .inl h
  | cons e' l ih =>
    rcases ih h with hmem | hmem
    · rcases mem_set hmem with hmem | rfl
      · exact .inl hmem
      · exact .inr List.mem_cons_self
    · exact .inr (List.mem_cons_of_mem _ hmem)

theorem mem_keys_setAll {k : κ} {d : Dict κ ν} {l : List (κ × ν)} :
    k ∈ keys (setAll d l) ↔ k ∈ keys d ∨ k ∈ keys l := by
  induction l generalizing d with
  | nil => simp [keys]
  | cons e l ih =>
    rw [setAll_cons, ih, mem_keys_set, keys_cons, List.mem_cons, or_comm (a := k = e.1), or_assoc]

theorem setAll_append (d : Dict κ ν) (l l' : List (κ × ν)) :
    setAll d (l ++ l') = setAll (setAll d l) l' :=
  List.foldl_append

/-- The value of a key is one that was there or one that was set. -/
theorem get?_setAll_mem {k : κ} {x : ν} {d : Dict κ ν} {l : List (κ × ν)}
    (h : get? k (setAll d l) = some x) : get? k d = some x ∨ (k, x) ∈ l := by
  induction l generalizing d with
  | nil => exact .inl h
  | cons e l ih =>
    rcases ih h with hset | hmem
    · rw [get?_set] at hset
      split at hset
      · rename_i heq
        cases hset
        exact .inr (List.mem_cons.2 (.inl (by rw [← heq])))
      · exact .inl hset
    · exact .inr (List.mem_cons_of_mem _ hmem)

/-- Items with new and distinct keys come behind those that were there. -/
theorem filter_setAll {p : κ → Bool} {d : Dict κ ν} {l : List (κ × ν)} (h : (keys l).Nodup)
    (hp : ∀ k ∈ keys l, k ∈ keys d → p k = false) :
    (setAll d l).filter (fun e => p e.1) =
      d.filter (fun e => p e.1) ++ l.filter fun e => p e.1 := by
  induction l generalizing d with
  | nil => simp
  | cons e l ih =>
    obtain ⟨hnot, hl⟩ := List.nodup_cons.1 h
    have htail : ∀ k ∈ keys l, k ∈ keys (set e.1 e.2 d) → p k = false := by
      intro k hk hmem
      rcases mem_keys_set.1 hmem with rfl | hmem
      · exact absurd hk hnot
      · exact hp k (List.mem_cons_of_mem _ hk) hmem
    rw [setAll_cons, ih hl htail]
    cases hpe : p e.1 with
    | false =>
      rw [filter_set_of_not hpe, List.filter_cons_of_neg (by simp [hpe])]
    | true =>
      have hnew : e.1 ∉ keys d := fun hmem => by
        rw [hp e.1 List.mem_cons_self hmem] at hpe
        cases hpe
      rw [set_of_not_mem hnew, List.filter_append, List.append_assoc]
      simp [hpe]

/-- The items of one key. -/
theorem filter_key {k : κ} {d : Dict κ ν} (h : (keys d).Nodup) :
    d.filter (fun e => e.1 = k) = ((get? k d).map fun x => (k, x)).toList := by
  induction d with
  | nil => rfl
  | cons e d ih =>
    obtain ⟨hnot, hd⟩ := List.nodup_cons.1 h
    rw [get?_cons]
    by_cases hk : e.1 = k
    · subst hk
      have hnone : get? e.1 d = none := by
        rw [← Option.not_isSome_iff_eq_none, isSome_get?_iff]
        exact hnot
      rw [List.filter_cons_of_pos (by simp), ih hd, hnone, if_pos rfl]
      rfl
    · rw [List.filter_cons_of_neg (by simpa using hk), ih hd, if_neg hk]

end Dict

end LocalPost.Core
