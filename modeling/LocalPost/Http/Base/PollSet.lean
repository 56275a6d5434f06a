import LocalPost.Http.Base.Selector

/-!
# The Python map against the kernel's poll set

`Inv` ties the two together: a descriptor is polled exactly when the socket of its key is open, a
key stands under the descriptor of its socket, and while that socket is open the key dispatches to
it. Every step keeps it (`step_inv`). `_apply_track` fails for closed sockets only
(`applyTrack_cases`).
-/

set_option autoImplicit false

namespace LocalPost.Http.Base

open LocalPost.Core

namespace Selector

/-! ## Fields after the elementary updates -/

section Fields

variable (s : Selector) (c d f fd : Nat) (b : Bool)

@[simp] theorem fd_setTracked : (s.setTracked c b).fd d = s.fd d := by
  by_cases h : d = c
  · subst h
    simp [Selector.fd, setTracked]
  · simp [Selector.fd, setTracked, h]

@[simp] theorem isOpen_setTracked : (s.setTracked c b).isOpen d = s.isOpen d := by
  by_cases h : d = c
  · subst h
    simp [isOpen, setTracked]
  · simp [isOpen, setTracked, h]

theorem tracked_setTracked :
    (s.setTracked c b).tracked d = if d = c then b else s.tracked d := by
  by_cases h : d = c
  · subst h
    simp [tracked, setTracked]
  · simp [tracked, setTracked, h]

@[simp] theorem map_setTracked : (s.setTracked c b).map = s.map := rfl

@[simp] theorem kernel_setTracked : (s.setTracked c b).kernel = s.kernel := rfl

@[simp] theorem next_setTracked : (s.setTracked c b).next = s.next := rfl

@[simp] theorem ops_setTracked : (s.setTracked c b).ops = s.ops := rfl

@[simp] theorem fd_sockClose : (s.sockClose c).fd d = s.fd d := by
  unfold sockClose
  split
  · by_cases h : d = c
    · subst h
      simp [Selector.fd]
    · simp [Selector.fd, h]
  · rfl

/-- A socket that is closed is not open, and the others are as before. -/
theorem isOpen_sockClose :
    (s.sockClose c).isOpen d = if d = c then false else s.isOpen d := by
  unfold sockClose
  by_cases h : d = c
  · subst h
    split
    · simp [isOpen]
    · rename_i hclosed
      simpa using hclosed
  · rw [if_neg h]
    split
    · simp [isOpen, h]
    · rfl

@[simp] theorem tracked_sockClose : (s.sockClose c).tracked d = s.tracked d := by
  unfold sockClose
  split
  · by_cases h : d = c
    · subst h
      simp [tracked]
    · simp [tracked, h]
  · rfl

/-- With the socket goes its descriptor, if it was open. -/
theorem kernel_sockClose :
    (s.sockClose c).kernel f = if s.isOpen c = true ∧ f = s.fd c then false else s.kernel f := by
  unfold sockClose
  split
  · rename_i hopen
    by_cases h : f = s.fd c
    · subst h
      simp [hopen]
    · simp [h]
  · rename_i hclosed
    simp [hclosed]

@[simp] theorem map_sockClose : (s.sockClose c).map = s.map := by
  unfold sockClose
  split <;> rfl

@[simp] theorem next_sockClose : (s.sockClose c).next = s.next := by
  unfold sockClose
  split <;> rfl

@[simp] theorem ops_sockClose : (s.sockClose c).ops = s.ops := by
  unfold sockClose
  split <;> rfl

@[simp] theorem conns_unregister : (s.unregister fd).conns = s.conns := by
  unfold unregister
  split <;> rfl

@[simp] theorem fd_unregister : (s.unregister fd).fd d = s.fd d := by
  unfold Selector.fd
  rw [conns_unregister]

@[simp] theorem isOpen_unregister : (s.unregister fd).isOpen d = s.isOpen d := by
  unfold isOpen
  rw [conns_unregister]

@[simp] theorem tracked_unregister : (s.unregister fd).tracked d = s.tracked d := by
  unfold tracked
  rw [conns_unregister]

@[simp] theorem next_unregister : (s.unregister fd).next = s.next := by
  unfold unregister
  split <;> rfl

@[simp] theorem ops_unregister : (s.unregister fd).ops = s.ops := by
  unfold unregister
  split <;> rfl

/-- `unregister` takes the key of its descriptor out of the map. -/
theorem map_unregister : (s.unregister fd).map f = if f = fd then none else s.map f := by
  unfold unregister
  split
  · by_cases h : f = fd
    · subst h
      simp
    · simp [h]
  · rename_i hnone
    by_cases h : f = fd
    · subst h
      simpa using hnone
    · simp [h]

/-- `unregister` takes the descriptor out of the poll set if the map has it. -/
theorem kernel_unregister :
    (s.unregister fd).kernel f =
      if (s.map fd).isSome = true ∧ f = fd then false else s.kernel f := by
  unfold unregister
  split
  · rename_i hsome
    by_cases h : f = fd
    · subst h
      simp [hsome]
    · simp [h]
  · rename_i hnone
    simp [hnone]

theorem kernel_le_unregister (h : (s.unregister fd).kernel f = true) : s.kernel f = true := by
  rw [kernel_unregister] at h
  split at h
  · cases h
  · exact h

end Fields

/-! ## The map against the poll set -/

/-- A socket that was not created is not open, two open sockets have two descriptors, what the
kernel polls has a key with an open socket, a key stands under the descriptor of its socket, and as
long as that socket is open the kernel polls it and the key dispatches to it. -/
structure Inv (s : Selector) : Prop where
  fresh : ∀ c, s.next ≤ c → s.isOpen c = false
  unique : ∀ c d, s.isOpen c = true → s.isOpen d = true → s.fd c = s.fd d → c = d
  polled : ∀ f, s.kernel f = true → ∃ key, s.map f = some key ∧ s.isOpen key.fileobj = true
  bound : ∀ f key, s.map f = some key → key.fileobj < s.next
  under : ∀ f key, s.map f = some key → s.fd key.fileobj = f
  live : ∀ f key, s.map f = some key → s.isOpen key.fileobj = true →
    s.kernel f = true ∧ key.data = key.fileobj

theorem inv_start : Inv start where
  fresh c h := rfl
  unique c d h := by cases h
  polled f h := by cases h
  bound f key h := by cases h
  under f key h := by cases h
  live f key h := by cases h

variable {s s' : Selector}

/-- A socket that is open was created. -/
theorem Inv.lt_next {c : Nat} (hi : Inv s) (hopen : s.isOpen c = true) : c < s.next := by
  by_contra hge
  rw [hi.fresh c (Nat.le_of_not_lt hge)] at hopen
  cases hopen

/-- `Inv` does not look at `tracked`, at the queue or at the pending `close` calls. -/
theorem Inv.of_eq (hi : Inv s) (hnext : s'.next = s.next) (hfd : ∀ c, s'.fd c = s.fd c)
    (hopen : ∀ c, s'.isOpen c = s.isOpen c) (hmap : s'.map = s.map)
    (hkernel : s'.kernel = s.kernel) : Inv s' where
  fresh c := by
    rw [hnext, hopen]
    exact hi.fresh c
  unique c d := by
    rw [hopen, hopen, hfd, hfd]
    exact hi.unique c d
  polled f := by
    rw [hkernel, hmap]
    simp only [hopen]
    exact hi.polled f
  bound f key := by
    rw [hmap, hnext]
    exact hi.bound f key
  under f key := by
    rw [hmap, hfd]
    exact hi.under f key
  live f key := by
    rw [hmap, hopen, hkernel]
    exact hi.live f key

theorem Inv.setTracked (hi : Inv s) (c : Nat) (b : Bool) : Inv (s.setTracked c b) :=
  hi.of_eq rfl (by simp) (by simp) rfl rfl

/-- Closing a socket keeps the map in line with the poll set. -/
theorem Inv.sockClose (hi : Inv s) (c : Nat) : Inv (s.sockClose c) where
  fresh d hd := by
    rw [next_sockClose] at hd
    rw [isOpen_sockClose, hi.fresh d hd, ite_self]
  unique d e hd he := by
    rw [isOpen_sockClose] at hd he
    rw [fd_sockClose, fd_sockClose]
    split at hd
    -- closing a socket only takes from the open ones
    · cases hd
    · split at he
      · cases he
      · exact hi.unique d e hd he
  polled f hf := by
    rw [kernel_sockClose] at hf
    split at hf
    · cases hf
    -- a descriptor that is still polled is not that of the closed socket
    · rename_i hne
      obtain ⟨key, hkey, hopen⟩ := hi.polled f hf
      refine ⟨key, by rw [map_sockClose]; exact hkey, ?_⟩
      rw [isOpen_sockClose, if_neg, hopen]
      intro heq
      subst heq
      exact hne ⟨hopen, (hi.under f key hkey).symm⟩
  bound f key hkey := by
    rw [map_sockClose] at hkey
    rw [next_sockClose]
    exact hi.bound f key hkey
  under f key hkey := by
    rw [map_sockClose] at hkey
    rw [fd_sockClose]
    exact hi.under f key hkey
  live f key hkey hopen := by
    rw [map_sockClose] at hkey
    rw [isOpen_sockClose] at hopen
    split at hopen
    · cases hopen
    -- the open owner of a key is another connection, with another descriptor
    · rename_i hne
      obtain ⟨hkernel, hdata⟩ := hi.live f key hkey hopen
      refine ⟨?_, hdata⟩
      rw [kernel_sockClose, if_neg, hkernel]
      rintro ⟨hc, hf⟩
      exact hne (hi.unique key.fileobj c hopen hc ((hi.under f key hkey).trans hf))

/-- Unregistering keeps the map in line with the poll set. -/
theorem Inv.unregister (hi : Inv s) (fd : Nat) : Inv (s.unregister fd) where
  fresh c hc := by
    rw [next_unregister] at hc
    rw [isOpen_unregister]
    exact hi.fresh c hc
  unique c d := by
    rw [isOpen_unregister, isOpen_unregister, fd_unregister, fd_unregister]
    exact hi.unique c d
  polled f hf := by
    obtain ⟨key, hkey, hopen⟩ := hi.polled f (kernel_le_unregister s f fd hf)
    refine ⟨key, ?_, by rw [isOpen_unregister]; exact hopen⟩
    rw [map_unregister, if_neg, hkey]
    intro heq
    subst heq
    -- the key that is removed takes the descriptor from the kernel too
    rw [kernel_unregister, hkey] at hf
    simp at hf
  bound f key hkey := by
    rw [map_unregister] at hkey
    rw [next_unregister]
    split at hkey
    · cases hkey
    · exact hi.bound f key hkey
  under f key hkey := by
    rw [map_unregister] at hkey
    rw [fd_unregister]
    split at hkey
    · cases hkey
    · exact hi.under f key hkey
  live f key hkey hopen := by
    rw [map_unregister] at hkey
    rw [isOpen_unregister] at hopen
    split at hkey
    · cases hkey
    -- the key that stays is under another descriptor
    · rename_i hne
      obtain ⟨hkernel, hdata⟩ := hi.live f key hkey hopen
      refine ⟨?_, hdata⟩
      rw [kernel_unregister, if_neg (fun h => hne h.2)]
      exact hkernel

theorem Inv.unregisterSock (hi : Inv s) (c : Nat) : Inv (s.unregisterSock c) := by
  unfold Selector.unregisterSock
  split
  · exact hi.unregister _
  · exact hi

/-! ## What `_apply_track` does -/

section ApplyTrack

variable {c : Nat}

theorem fileobjLookup_open (hopen : s.isOpen c = true) : s.fileobjLookup c = some (s.fd c) := by
  unfold fileobjLookup
  rw [if_pos hopen]

/-- A closed socket is found under the key that holds it. -/
theorem fileobjLookup_cases {f : Nat} (h : s.fileobjLookup c = some f) :
    f = s.fd c ∧
      (s.isOpen c = true ∨ ∃ key, s.map (s.fd c) = some key ∧ key.fileobj = c) := by
  unfold fileobjLookup at h
  split at h
  · rename_i hopen
    cases h
    exact ⟨rfl, .inl hopen⟩
  · split at h
    · rename_i hany
      cases h
      refine ⟨rfl, .inr ?_⟩
      rw [Option.any_eq_true] at hany
      simpa using hany
    · cases h

/-- `modify` finds a key, and replaces its data. -/
theorem modify_cases (h : s.modify c = some s') :
    ∃ key, s.map (s.fd c) = some key ∧ (s.isOpen c = true ∨ key.fileobj = c) ∧
      s' = { s with map := Function.update s.map (s.fd c) (some { key with data := c }) } := by
  unfold modify at h
  split at h
  · cases h
  · rename_i f hlookup
    obtain ⟨rfl, hfound⟩ := fileobjLookup_cases hlookup
    split at h
    · cases h
    · rename_i key hkey
      cases h
      refine ⟨key, hkey, ?_, rfl⟩
      rcases hfound with hopen | ⟨key', hkey', hfile⟩
      · exact .inl hopen
      · cases hkey.symm.trans hkey'
        exact .inr hfile

/-- `register` needs an open socket and a descriptor without a key, and adds one to both. -/
theorem register_cases (h : s.register c = some s') :
    s.isOpen c = true ∧ s.map (s.fd c) = none ∧
      s' = { s with
        map := Function.update s.map (s.fd c) (some ⟨c, c⟩)
        kernel := Function.update s.kernel (s.fd c) true } := by
  unfold register at h
  split at h
  · cases h
  · rename_i f hlookup
    obtain ⟨rfl, hfound⟩ := fileobjLookup_cases hlookup
    split at h
    · cases h
    · rename_i hfree
      cases h
      simp only [Bool.or_eq_true, not_or, Option.not_isSome_iff_eq_none] at hfree
      refine ⟨?_, hfree.1, rfl⟩
      rcases hfound with hopen | ⟨key, hkey, -⟩
      · exact hopen
      · cases hfree.1.symm.trans hkey

/-- For an open socket one of the two calls goes through: the kernel does not poll a descriptor
without a key. -/
theorem applyTrack_ok (hi : Inv s) (hopen : s.isOpen c = true) :
    ∃ s', (if (s.map (s.fd c)).isSome then s.modify c else s.register c) = some s' := by
  cases hmap : s.map (s.fd c) with
  | some key =>
    rw [if_pos Option.isSome_some]
    unfold modify
    rw [fileobjLookup_open hopen]
    simp [hmap]
  | none =>
    have hkernel : s.kernel (s.fd c) = false := by
      rw [Bool.eq_false_iff]
      intro hk
      obtain ⟨key, hkey, -⟩ := hi.polled _ hk
      cases hmap.symm.trans hkey
    rw [if_neg (by simp)]
    unfold register
    rw [fileobjLookup_open hopen]
    simp [hmap, hkernel]

/-- `_apply_track` registers the socket, gives the key under its descriptor a new callback, or
fails, which happens to a closed socket only. -/
theorem applyTrack_cases (hi : Inv s) (c : Nat) :
    (s.isOpen c = true ∧ s.map (s.fd c) = none ∧
      s.applyTrack c = { s with
        map := Function.update s.map (s.fd c) (some ⟨c, c⟩)
        kernel := Function.update s.kernel (s.fd c) true }) ∨
    (∃ key, s.map (s.fd c) = some key ∧ (s.isOpen c = true ∨ key.fileobj = c) ∧
      s.applyTrack c =
        { s with map := Function.update s.map (s.fd c) (some { key with data := c }) }) ∨
    (s.isOpen c = false ∧ s.applyTrack c = s.setTracked c false) := by
  unfold applyTrack
  split
  · rename_i s' hok
    -- a key stands for the descriptor already: `modify`
    split at hok
    · obtain ⟨key, hkey, hfound, rfl⟩ := modify_cases hok
      exact .inr (.inl ⟨key, hkey, hfound, rfl⟩)
    -- there is none: `register`
    · obtain ⟨hopen, hnone, rfl⟩ := register_cases hok
      exact .inl ⟨hopen, hnone, rfl⟩
  · rename_i hfail
    -- both raise only for a socket that is closed
    have hclosed : s.isOpen c = false := by
      rw [Bool.eq_false_iff]
      intro hopen
      obtain ⟨s', hok⟩ := applyTrack_ok hi hopen
      cases hfail.symm.trans hok
    refine .inr (.inr ⟨hclosed, ?_⟩)
    unfold sockClose
    rw [isOpen_setTracked, hclosed, if_neg (by simp)]

/-- A key for an open connection keeps the map in line with the poll set. -/
theorem Inv.addKey (hi : Inv s) (hopen : s.isOpen c = true) :
    Inv { s with
      map := Function.update s.map (s.fd c) (some ⟨c, c⟩)
      -- The new key is under the descriptor of `c`; under every other one nothing has changed.
      kernel := Function.update s.kernel (s.fd c) true } where
  fresh := hi.fresh
  unique := hi.unique
  polled f hf := by
    by_cases h : f = s.fd c
    · subst h
      exact ⟨⟨c, c⟩, by simp, hopen⟩
    · simp only [Function.update_of_ne h] at hf ⊢
      exact hi.polled f hf
  bound f key hkey := by
    by_cases h : f = s.fd c
    · subst h
      simp only [Function.update_self, Option.some.injEq] at hkey
      subst hkey
      -- an open connection has been made, so it is below `next`
      by_contra hlt
      rw [hi.fresh c (by simpa using hlt)] at hopen
      cases hopen
    · simp only [Function.update_of_ne h] at hkey
      exact hi.bound f key hkey
  under f key hkey := by
    by_cases h : f = s.fd c
    · subst h
      simp only [Function.update_self, Option.some.injEq] at hkey
      subst hkey
      rfl
    · simp only [Function.update_of_ne h] at hkey
      exact hi.under f key hkey
  live f key hkey hlive := by
    by_cases h : f = s.fd c
    · subst h
      simp only [Function.update_self, Option.some.injEq] at hkey
      subst hkey
      exact ⟨Function.update_self _ _ _, rfl⟩
    · simp only [Function.update_of_ne h] at hkey ⊢
      exact hi.live f key hkey hlive

/-- The new callback belongs to the socket of the key, or that socket is closed. -/
theorem Inv.setData (hi : Inv s) {key : Key} (hkey : s.map (s.fd c) = some key)
    (hfound : s.isOpen c = true ∨ key.fileobj = c) :
    Inv { s with map := Function.update s.map (s.fd c) (some { key with data := c }) } where
  fresh := hi.fresh
  unique := hi.unique
  polled f hf := by
    obtain ⟨key', hkey', hopen⟩ := hi.polled f hf
    by_cases h : f = s.fd c
    · subst h
      -- the object of the key is the one of before, only `data` is another
      cases hkey.symm.trans hkey'
      exact ⟨{ key with data := c }, by simp, hopen⟩
    · exact ⟨key', by simpa [Function.update_of_ne h] using hkey', hopen⟩
  bound f key' hkey' := by
    by_cases h : f = s.fd c
    · subst h
      simp only [Function.update_self, Option.some.injEq] at hkey'
      subst hkey'
      exact hi.bound _ key hkey
    · simp only [Function.update_of_ne h] at hkey'
      exact hi.bound f key' hkey'
  under f key' hkey' := by
    by_cases h : f = s.fd c
    · subst h
      simp only [Function.update_self, Option.some.injEq] at hkey'
      subst hkey'
      exact hi.under _ key hkey
    · simp only [Function.update_of_ne h] at hkey'
      exact hi.under f key' hkey'
  live f key' hkey' hlive := by
    by_cases h : f = s.fd c
    · subst h
      simp only [Function.update_self, Option.some.injEq] at hkey'
      subst hkey'
      refine ⟨(hi.live _ key hkey hlive).1, ?_⟩
      -- the key is exchanged for an open connection or for its own object
      rcases hfound with hopen | hfile
      · exact hi.unique c key.fileobj hopen hlive (hi.under _ key hkey).symm
      · exact hfile.symm
    · simp only [Function.update_of_ne h] at hkey'
      exact hi.live f key' hkey' hlive

theorem Inv.applyTrack (hi : Inv s) (c : Nat) : Inv (s.applyTrack c) := by
  obtain ⟨hopen, -, heq⟩ | ⟨key, hkey, hfound, heq⟩ | ⟨-, heq⟩ := applyTrack_cases hi c
  · rw [heq]
    exact hi.addKey hopen
  · rw [heq]
    exact hi.setData hkey hfound
  · rw [heq]
    exact hi.setTracked c false

end ApplyTrack

theorem Inv.foldl {g : Selector → Nat → Selector} (hg : ∀ s c, Inv s → Inv (g s c)) (hi : Inv s)
    (cs : List Nat) : Inv (cs.foldl g s) := by
  induction cs generalizing s with
  | nil => exact hi
  | cons c cs ih => exact ih (hg s c hi)

theorem Inv.stopTracking (hi : Inv s) (c : Nat) : Inv (s.stopTracking c) :=
  (hi.unregisterSock c).setTracked c false

theorem Inv.closeHere (hi : Inv s) (c : Nat) : Inv (s.closeHere c) := by
  have hclosed := (hi.setTracked c false).sockClose c
  unfold Selector.closeHere
  split
  · exact hclosed.unregister _
  · exact hclosed

theorem Inv.track (hi : Inv s) (c : Nat) (here : Bool) : Inv (s.track c here) := by
  unfold Selector.track
  split
  · exact hi
  · split
    · exact (hi.setTracked c true).applyTrack c
    · exact (hi.setTracked c true).of_eq rfl (fun _ => rfl) (fun _ => rfl) rfl rfl

/-- A new connection under a free descriptor keeps the map in line with the poll set. -/
theorem Inv.accept (hi : Inv s) {fd : Nat} (hfree : ∀ c < s.next, s.isOpen c = true → s.fd c ≠ fd) :
    Inv { s with
      conns := Function.update s.conns s.next ⟨fd, true, false⟩, next := s.next + 1 } := by
  have hlt : ∀ c, s.isOpen c = true → c < s.next := fun _ hopen => hi.lt_next hopen
  have hconns : ∀ c, c < s.next →
      Function.update s.conns s.next ⟨fd, true, false⟩ c = s.conns c :=
    fun c hc => Function.update_of_ne (Nat.ne_of_lt hc) _ _
  constructor
  · intro c hc
    simp only [isOpen] at hc ⊢
    rw [Function.update_of_ne (by omega)]
    exact hi.fresh c (by omega)
  · intro c d hc hd heq
    simp only [isOpen, Selector.fd] at hc hd heq
    -- The number of the new socket belongs to no open one.
    by_cases hcn : c = s.next
    · by_cases hdn : d = s.next
      · rw [hcn, hdn]
      · rw [hcn, Function.update_self, Function.update_of_ne hdn] at heq
        rw [Function.update_of_ne hdn] at hd
        exact absurd heq.symm (hfree d (hlt d hd) hd)
    · rw [Function.update_of_ne hcn] at hc heq
      by_cases hdn : d = s.next
      · rw [hdn, Function.update_self] at heq
        exact absurd heq (hfree c (hlt c hc) hc)
      · rw [Function.update_of_ne hdn] at hd heq
        exact hi.unique c d hc hd heq
  · intro f hf
    obtain ⟨key, hkey, hopen⟩ := hi.polled f hf
    refine ⟨key, hkey, ?_⟩
    simp only [isOpen]
    rw [hconns _ (hi.bound f key hkey)]
    exact hopen
  · intro f key hkey
    exact Nat.lt_succ_of_lt (hi.bound f key hkey)
  · intro f key hkey
    simp only [Selector.fd]
    rw [hconns _ (hi.bound f key hkey)]
    exact hi.under f key hkey
  · intro f key hkey hopen
    simp only [isOpen] at hopen
    rw [hconns _ (hi.bound f key hkey)] at hopen
    exact hi.live f key hkey hopen

/-- Every step keeps the map in line with the poll set. -/
theorem step_inv {a : Act} (hi : Inv s) (h : s.step a = some s') : Inv s' := by
  -- The queue of operations is no part of the invariant.
  have hsame : ∀ {r r' : Selector}, Inv r → r'.next = r.next → r'.conns = r.conns →
      r'.map = r.map → r'.kernel = r.kernel → Inv r' := by
    intro r r' hr hnext hconns hmap hkernel
    refine hr.of_eq hnext (fun c => ?_) (fun c => ?_) hmap hkernel
    · simp only [Selector.fd, hconns]
    · simp only [isOpen, hconns]
  cases a with
  | accept fd =>
    obtain ⟨hfree, ⟨⟩⟩ := Option.ite_none_right_eq_some.1 h
    exact hi.accept hfree
  | track c here =>
    obtain ⟨-, ⟨⟩⟩ := Option.ite_none_right_eq_some.1 h
    exact hi.track c here
  | postTrack c =>
    obtain ⟨-, ⟨⟩⟩ := Option.ite_none_right_eq_some.1 h
    exact hsame (hi.setTracked c true) rfl rfl rfl rfl
  | postClose fd =>
    cases h
    exact hsame hi rfl rfl rfl rfl
  | stopTracking c =>
    obtain ⟨-, ⟨⟩⟩ := Option.ite_none_right_eq_some.1 h
    exact hi.stopTracking c
  | closeMark c =>
    obtain ⟨-, ⟨⟩⟩ := Option.ite_none_right_eq_some.1 h
    exact hsame (hi.setTracked c false) rfl rfl rfl rfl
  | closeSock i =>
    obtain ⟨⟨c, wasTracked⟩, -, rfl⟩ := Option.map_eq_some_iff.1 h
    exact hsame (hi.sockClose c) rfl rfl rfl rfl
  | closePost i =>
    obtain ⟨fd, -, rfl⟩ := Option.map_eq_some_iff.1 h
    exact hsame hi rfl rfl rfl rfl
  | closeHere c =>
    obtain ⟨-, ⟨⟩⟩ := Option.ite_none_right_eq_some.1 h
    exact hi.closeHere c
  | drain =>
    simp only [step, drain] at h
    split at h
    · cases h
    · rename_i c rest hops
      cases h
      have hpop : Inv { s with ops := rest } := hsame hi rfl rfl rfl rfl
      exact hpop.applyTrack c
    · rename_i fd rest hops
      cases h
      have hpop : Inv { s with ops := rest } := hsame hi rfl rfl rfl rfl
      exact hpop.unregister fd
  | cleanupStale late =>
    cases h
    exact (hi.foldl (fun r c hr => hr.stopTracking c) _).foldl (fun r c hr => hr.sockClose c) _

end Selector

end LocalPost.Http.Base
