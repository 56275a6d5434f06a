import LocalPost.Di.Moves

/-!
# Instances and exit callbacks

Every instance has its exit callback once, on the stack of the provider that made it until that has
taken it. The callbacks of a provider lie in the order in which its instances were made.
-/

set_option autoImplicit false

namespace LocalPost.Di

open LocalPost.Core

/-- The books of the exit callbacks. -/
structure Ledger (s : World) : Prop where
  made : ∀ (i : Nat) (a : Instance), s.instances[i]? = some a →
    ∃ k, s.providers[a.provider]? = some k
  exits : ∀ (p : Nat) (k : Provider), s.providers[p]? = some k →
    ∀ i ∈ k.exits, ∃ a, s.instances[i]? = some a ∧ a.provider = p
  closed : ∀ i ∈ s.closed, i < s.instances.length
  count : ∀ (i : Nat) (a : Instance) (k : Provider), s.instances[i]? = some a →
    s.providers[a.provider]? = some k →
    k.exits.count i + s.closed.count i = 1
  sorted : ∀ (p : Nat) (k : Provider), s.providers[p]? = some k → k.exits.Pairwise (· < ·)

namespace Ledger

variable {s u : World}

theorem start (n : Nat) : Ledger (.start n) :=
  ⟨fun i a h => (by cases h), fun p k h => (by cases h), fun i h => absurd h List.not_mem_nil,
    fun i a k h => (by cases h), fun p k h => (by cases h)⟩

/-- Nothing but threads and replies changes. -/
theorem of_eq (h : Ledger s) (hproviders : u.providers = s.providers)
    (hinstances : u.instances = s.instances) (hclosed : u.closed = s.closed) : Ledger u := by
  obtain ⟨hmade, hexits, hclosed', hcount, hsorted⟩ := h
  constructor
  · rw [hproviders, hinstances]
    exact hmade
  · rw [hproviders, hinstances]
    exact hexits
  · rw [hclosed, hinstances]
    exact hclosed'
  · rw [hproviders, hinstances, hclosed]
    exact hcount
  · rw [hproviders]
    exact hsorted

/-- A provider that has the same callbacks takes the place of another. -/
theorem set_provider (h : Ledger s) {p : Nat} {k k' : Provider} (hk : s.providers[p]? = some k)
    (hsame : k'.exits = k.exits) : Ledger { s with providers := s.providers.set p k' } := by
  -- a provider has the exit stack it had before the update
  have hold : ∀ {q : Nat} {kq : Provider}, (s.providers.set p k')[q]? = some kq →
      ∃ k₀, s.providers[q]? = some k₀ ∧ kq.exits = k₀.exits := by
    intro q kq hq
    rw [getElem?_set_iff hk] at hq
    split at hq
    · rename_i heq
      subst heq
      subst hq
      exact ⟨k, hk, hsame⟩
    · exact ⟨kq, hq, rfl⟩
  refine ⟨fun i a ha => ?_, fun q kq hq => ?_, h.closed, fun i a kq ha hq => ?_, fun q kq hq => ?_⟩
  · obtain ⟨k₀, hk₀⟩ := h.made i a ha
    by_cases heq : p = a.provider
    · exact ⟨k', (getElem?_set_iff hk).2 (by rw [if_pos heq])⟩
    · exact ⟨k₀, (getElem?_set_iff hk).2 (by rw [if_neg heq]; exact hk₀)⟩
  · obtain ⟨k₀, hk₀, hexits⟩ := hold hq
    rw [hexits]
    exact h.exits q k₀ hk₀
  · obtain ⟨k₀, hk₀, hexits⟩ := hold hq
    rw [hexits]
    exact h.count i a k₀ ha hk₀
  · obtain ⟨k₀, hk₀, hexits⟩ := hold hq
    rw [hexits]
    exact h.sorted q k₀ hk₀

/-- A new provider has no callbacks. -/
theorem enter (h : Ledger s) {k : Provider} (hexits : k.exits = []) :
    Ledger { s with providers := s.providers ++ [k] } := by
  -- the only new provider is the last one, and its exit stack is empty
  have hold : ∀ {q : Nat} {kq : Provider}, (s.providers ++ [k])[q]? = some kq →
      s.providers[q]? = some kq ∨ q = s.providers.length ∧ kq.exits = [] := by
    intro q kq hq
    rcases getElem?_concat_iff.1 hq with hq | ⟨hlength, rfl⟩
    · exact .inl hq
    · exact .inr ⟨hlength, hexits⟩
  refine ⟨fun i a ha => ?_, fun q kq hq => ?_, h.closed, fun i a kq ha hq => ?_, fun q kq hq => ?_⟩
  · obtain ⟨k₀, hk₀⟩ := h.made i a ha
    exact ⟨k₀, getElem?_concat_iff.2 (.inl hk₀)⟩
  · rcases hold hq with hq | ⟨-, hnil⟩
    · exact h.exits q kq hq
    · rw [hnil]
      exact fun i hi => absurd hi List.not_mem_nil
  · rcases hold hq with hq | ⟨hlength, -⟩
    · exact h.count i a kq ha hq
    -- no instance that exists belongs to a provider that has just been made
    · obtain ⟨k₀, hk₀⟩ := h.made i a ha
      rw [hlength] at hk₀
      rw [List.getElem?_eq_none (Nat.le_refl _)] at hk₀
      cases hk₀
  · rcases hold hq with hq | ⟨-, hnil⟩
    · exact h.sorted q kq hq
    · rw [hnil]
      exact List.Pairwise.nil

/-- The new instance is entered on top. -/
theorem store (h : Ledger s) {c : Call} {k : Provider} (hk : s.providers[c.provider]? = some k)
    (d : ServiceDescriptor) (injected : List Resolved) : Ledger (s.store c k d injected) := by
  have hlt : ∀ i ∈ k.exits, i < s.instances.length := by
    intro i hi
    obtain ⟨a, ha, -⟩ := h.exits _ k hk i hi
    exact (List.getElem?_eq_some_iff.1 ha).1
  constructor
  · intro i a ha
    by_cases heq : c.provider = a.provider
    · exact ⟨_, (getElem?_set_iff hk).2 (by rw [if_pos heq])⟩
    · rcases getElem?_concat_iff.1 ha with ha | ⟨-, rfl⟩
      · obtain ⟨k₀, hk₀⟩ := h.made i a ha
        exact ⟨k₀, (getElem?_set_iff hk).2 (by rw [if_neg heq]; exact hk₀)⟩
      · exact absurd rfl heq
  · intro q kq hq i hi
    rw [World.store, getElem?_set_iff hk] at hq
    split at hq
    · rename_i heq
      subst heq
      subst hq
      rcases List.mem_append.1 hi with hi | hi
      · obtain ⟨a, ha, hprovider⟩ := h.exits _ k hk i hi
        exact ⟨a, getElem?_concat_iff.2 (.inl ha), hprovider⟩
      · rw [List.mem_singleton.1 hi]
        exact ⟨_, getElem?_concat_iff.2 (.inr ⟨rfl, rfl⟩), rfl⟩
    · obtain ⟨a, ha, hprovider⟩ := h.exits q kq hq i hi
      exact ⟨a, getElem?_concat_iff.2 (.inl ha), hprovider⟩
  · intro i hi
    change i < (s.instances ++ [_]).length
    rw [List.length_append]
    exact Nat.lt_add_right _ (h.closed i hi)
  -- An old instance is counted as before; the new one is once on the stack and not closed.
  · intro i a kq ha hq
    rw [World.store, getElem?_set_iff hk] at hq
    rcases getElem?_concat_iff.1 ha with ha | ⟨rfl, rfl⟩
    · split at hq
      · rename_i heq
        subst hq
        have hne : i ≠ s.instances.length := Nat.ne_of_lt (List.getElem?_eq_some_iff.1 ha).1
        change (k.exits ++ [s.instances.length]).count i + s.closed.count i = 1
        rw [List.count_append, List.count_singleton,
          if_neg (by simpa using Ne.symm hne), Nat.add_zero]
        exact h.count i a k ha (heq ▸ hk)
      · exact h.count i a kq ha hq
    · rw [if_pos rfl] at hq
      subst hq
      have hexits : s.instances.length ∉ k.exits := fun hi => Nat.lt_irrefl _ (hlt _ hi)
      have hclosed : s.instances.length ∉ s.closed := fun hi => Nat.lt_irrefl _ (h.closed _ hi)
      change (k.exits ++ [s.instances.length]).count s.instances.length + s.closed.count
        s.instances.length = 1
      rw [List.count_append, List.count_eq_zero.2 hexits, List.count_eq_zero.2 hclosed,
        List.count_singleton_self]
  · intro q kq hq
    rw [World.store, getElem?_set_iff hk] at hq
    split at hq
    · subst hq
      -- The new index is above all the others.
      refine List.pairwise_append.2
        ⟨h.sorted _ k hk, List.pairwise_singleton _ _, fun i hi j hj => ?_⟩
      rw [List.mem_singleton.1 hj]
      exact hlt i hi
    · exact h.sorted q kq hq

/-- The topmost callback is taken. -/
theorem close (h : Ledger s) {p i : Nat} {k : Provider} (hk : s.providers[p]? = some k)
    (hi : k.exits.getLast? = some i) : Ledger (s.close p k i) := by
  obtain ⟨exits, hexits⟩ : ∃ exits, k.exits = exits ++ [i] :=
    ⟨_, (List.dropLast_append_getLast? i hi).symm⟩
  have hdrop : k.exits.dropLast = exits := by rw [hexits, List.dropLast_concat]
  obtain ⟨a₀, ha₀, hprovider₀⟩ := h.exits p k hk i
    (by rw [hexits]; exact List.mem_append_right _ List.mem_cons_self)
  -- Only the stack of provider `p` changes: it loses its last entry.
  have hold : ∀ {q : Nat} {kq : Provider}, (s.close p k i).providers[q]? = some kq →
      p = q ∧ kq.exits = exits ∨ p ≠ q ∧ s.providers[q]? = some kq := by
    intro q kq hq
    rw [World.close, getElem?_set_iff hk] at hq
    split at hq
    · rename_i heq
      subst hq
      exact .inl ⟨heq, hdrop⟩
    · rename_i hne
      exact .inr ⟨hne, hq⟩
  constructor
  · intro j a ha
    obtain ⟨k₀, hk₀⟩ := h.made j a ha
    by_cases heq : p = a.provider
    · exact ⟨_, (getElem?_set_iff hk).2 (by rw [if_pos heq])⟩
    · exact ⟨k₀, (getElem?_set_iff hk).2 (by rw [if_neg heq]; exact hk₀)⟩
  · intro q kq hq j hj
    rcases hold hq with ⟨rfl, hsame⟩ | ⟨-, hq⟩
    · rw [hsame] at hj
      exact h.exits p k hk j (by rw [hexits]; exact List.mem_append_left _ hj)
    · exact h.exits q kq hq j hj
  · intro j hj
    rcases List.mem_append.1 hj with hj | hj
    · exact h.closed j hj
    · rw [List.mem_singleton.1 hj]
      exact (List.getElem?_eq_some_iff.1 ha₀).1
  -- What leaves the stack goes to the closed ones, so the sum stays one.
  · intro j a kq ha hq
    change kq.exits.count j + (s.closed ++ [i]).count j = 1
    rw [List.count_append]
    rcases hold hq with ⟨heq, hsame⟩ | ⟨hne, hq⟩
    · have hbefore := h.count j a k ha (heq ▸ hk)
      rw [hexits, List.count_append] at hbefore
      rw [hsame]
      omega
    · have hbefore := h.count j a kq ha hq
      have hij : i ≠ j := by
        rintro rfl
        cases ha₀.symm.trans ha
        exact hne hprovider₀.symm
      rw [List.count_singleton, if_neg (by simpa using hij)]
      exact hbefore
  · intro q kq hq
    rcases hold hq with ⟨-, hsame⟩ | ⟨-, hq⟩
    · have hbefore := h.sorted p k hk
      rw [hexits] at hbefore
      rw [hsame]
      exact (List.pairwise_append.1 hbefore).1
    · exact h.sorted q kq hq

/-- Every move keeps the ledger. -/
theorem moves {t : Nat} {th : Thread} {a : Act} (h : Ledger s) (hmoves : Moves s t th a u) :
    Ledger u := by
  cases hmoves with
  | enters hfree hparent =>
    exact of_eq (h.enter (k := World.provide _ _ _) rfl) rfl rfl rfl
  | produces hth hf hk hd => exact of_eq (h.store hk _ _) rfl rfl rfl
  | pops hth hk hi ha => exact of_eq (h.close hk hi) rfl rfl rfl
  | @is_left p stack k hth hk hexits =>
    have hsame : ({ k with left := true } : Provider).exits = k.exits := rfl
    exact of_eq (h.set_provider hk hsame) rfl rfl rfl
  | _ => exact of_eq h rfl rfl rfl

end Ledger

end LocalPost.Di
