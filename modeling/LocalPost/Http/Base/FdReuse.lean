import LocalPost.Http.Base.PollSet

/-!
# Stale operations across descriptor reuse

`Visible` says that every connection that is open and marked tracked, with its track operation
applied, has a key that dispatches to it in the Python map and its descriptor in the kernel's poll
set. An off-thread `close` frees the descriptor number before its `_OpClose` is applied. A later
connection may get the number and find the old key in the map (`modify` hides it from the poll set),
or be registered already when the operation comes (`unregister` drops it):
`visible_after_stale_close` is a run with both.

Under `Inv` visibility is a statement about the map alone (`visible_iff`), and a step keeps it
exactly when `SafeOp` holds before it (`step_visible`).
-/

set_option autoImplicit false

namespace LocalPost.Http.Base

open LocalPost.Core

namespace Selector

variable {s s' : Selector}

/-! ## Visible connections -/

/-- Connection `c` is open and marked tracked, and no operation to track it is queued. -/
def Applied (s : Selector) (c : Nat) : Prop :=
  s.isOpen c = true ∧ s.tracked c = true ∧ Op.track c ∉ s.ops

instance (s : Selector) (c : Nat) : Decidable (s.Applied c) :=
  inferInstanceAs (Decidable (_ ∧ _ ∧ _))

/-- Every connection that is open and tracked, with its track operation applied, has a key that
dispatches to it under its descriptor, and the kernel polls the descriptor. -/
def Visible (s : Selector) : Prop :=
  ∀ c, s.Applied c →
    ∃ key, s.map (s.fd c) = some key ∧ key.data = c ∧ s.kernel (s.fd c) = true

/-- The key under the descriptor of `c`, if there is one, was made for the socket of `c`. -/
def KeyIsOwn (s : Selector) (c : Nat) : Prop := ∀ key ∈ s.map (s.fd c), key.fileobj = c

instance (s : Selector) (c : Nat) : Decidable (s.KeyIsOwn c) :=
  inferInstanceAs (Decidable (∀ _ ∈ _, _))

/-- No connection other than `c` that is open, tracked and applied has the descriptor `fd`. -/
def NotInUse (s : Selector) (fd : Nat) (c : Option Nat) : Prop :=
  ∀ d < s.next, c ≠ some d → s.Applied d → s.fd d ≠ fd

instance (s : Selector) (fd : Nat) (c : Option Nat) : Decidable (s.NotInUse fd c) :=
  inferInstanceAs (Decidable (∀ d < s.next, _ → _ → _))

/-- The condition on a step. Where it applies the tracking of an open connection, no key of an
earlier socket is left under the descriptor; where it drops a descriptor by number, no other
connection in use has got that number in the meantime. -/
def SafeOp (s : Selector) : Act → Prop
  | .track c here =>
    here = true → s.tracked c = false → s.isOpen c = true → Op.track c ∉ s.ops → s.KeyIsOwn c
  | .closeHere c => s.tracked c = true → s.NotInUse (s.fd c) (some c)
  | .drain =>
    match s.ops with
    | [] => True
    | .track c :: rest =>
      s.tracked c = true → s.isOpen c = true → Op.track c ∉ rest → s.KeyIsOwn c
    | .close fd :: _ => s.NotInUse fd none
  | _ => True

instance (s : Selector) : ∀ a, Decidable (s.SafeOp a)
  | .track _ _ => inferInstanceAs (Decidable (_ → _ → _ → _ → _))
  | .closeHere _ => inferInstanceAs (Decidable (_ → _))
  | .drain =>
    match h : s.ops with
    | [] => .isTrue (by simp [SafeOp, h])
    | .track c :: rest =>
      decidable_of_iff (s.tracked c = true → s.isOpen c = true → Op.track c ∉ rest → s.KeyIsOwn c)
        (by simp [SafeOp, h])
    | .close fd :: _ => decidable_of_iff (s.NotInUse fd none) (by simp [SafeOp, h])
  | .accept _ => .isTrue trivial
  | .postTrack _ => .isTrue trivial
  | .postClose _ => .isTrue trivial
  | .stopTracking _ => .isTrue trivial
  | .closeMark _ => .isTrue trivial
  | .closeSock _ => .isTrue trivial
  | .closePost _ => .isTrue trivial
  | .cleanupStale _ => .isTrue trivial

/-- The key under the descriptor of `c` was made for the socket of `c`. -/
def Owns (s : Selector) (c : Nat) : Prop := ∃ key, s.map (s.fd c) = some key ∧ key.fileobj = c

/-- Under the invariant the poll set and the callback of a key follow from its socket. -/
theorem visible_iff (hi : Inv s) : s.Visible ↔ ∀ c, s.Applied c → s.Owns c := by
  constructor
  · intro h c hc
    obtain ⟨key, hkey, -, hkernel⟩ := h c hc
    obtain ⟨key', hkey', hopen⟩ := hi.polled _ hkernel
    cases hkey.symm.trans hkey'
    exact ⟨key, hkey, hi.unique _ _ hopen hc.1 (hi.under _ _ hkey)⟩
  · intro h c hc
    obtain ⟨key, hkey, hfile⟩ := h c hc
    have hopen : s.isOpen key.fileobj = true := by
      rw [hfile]
      exact hc.1
    obtain ⟨hkernel, hdata⟩ := hi.live _ key hkey hopen
    exact ⟨key, hkey, hdata.trans hfile, hkernel⟩

/-- Connections in use after the step were in use before it, and keep their keys. -/
def Keeps (s s' : Selector) : Prop := ∀ c, s'.Applied c → s.Applied c ∧ (s.Owns c → s'.Owns c)

theorem Keeps.trans {s'' : Selector} (h : Keeps s s') (h' : Keeps s' s'') : Keeps s s'' :=
  fun c hc => ⟨(h c (h' c hc).1).1, fun hown => (h' c hc).2 ((h c (h' c hc).1).2 hown)⟩

theorem Keeps.owns (h : Keeps s s') (hall : ∀ c, s.Applied c → s.Owns c) :
    ∀ c, s'.Applied c → s'.Owns c := fun c hc => (h c hc).2 (hall c (h c hc).1)

theorem Keeps.of_eq (hconns : s'.conns = s.conns) (hmap : s'.map = s.map)
    (hops : ∀ c, Op.track c ∈ s.ops → Op.track c ∈ s'.ops) : Keeps s s' := by
  rintro c ⟨hopen, htracked, hnot⟩
  simp only [isOpen, tracked, Owns, Selector.fd, hconns, hmap] at *
  exact ⟨⟨hopen, htracked, fun hmem => hnot (hops c hmem)⟩, id⟩

theorem keeps_untrack (s : Selector) (c : Nat) : Keeps s (s.setTracked c false) := by
  rintro d ⟨hopen, htracked, hnot⟩
  rw [tracked_setTracked] at htracked
  split at htracked
  · cases htracked
  · refine ⟨⟨by simpa using hopen, htracked, hnot⟩, fun hown => ?_⟩
    simpa [Owns] using hown

theorem keeps_sockClose (s : Selector) (c : Nat) : Keeps s (s.sockClose c) := by
  rintro d ⟨hopen, htracked, hnot⟩
  rw [isOpen_sockClose] at hopen
  split at hopen
  · cases hopen
  · refine ⟨⟨hopen, by simpa using htracked, by simpa using hnot⟩, fun hown => ?_⟩
    simpa [Owns] using hown

theorem owns_unregister {fd c : Nat} : (s.unregister fd).Owns c ↔ s.Owns c ∧ s.fd c ≠ fd := by
  simp only [Owns, fd_unregister, map_unregister]
  by_cases h : s.fd c = fd
  · simp [h]
  · simp [h]

theorem applied_unregister {fd c : Nat} : (s.unregister fd).Applied c ↔ s.Applied c := by
  simp [Applied]

/-- The socket lookup of `stop_tracking` finds no other socket in use. -/
theorem keeps_stopTracking (hi : Inv s) (c : Nat) : Keeps s (s.stopTracking c) := by
  intro d hd
  -- the connection itself is not tracked any more, so the other is another one
  have hne : d ≠ c := by
    rintro rfl
    have htracked := hd.2.1
    rw [Selector.stopTracking, tracked_setTracked, if_pos rfl] at htracked
    cases htracked
  obtain ⟨hmid, hown⟩ := keeps_untrack (s.unregisterSock c) c d hd
  unfold unregisterSock at hmid hown
  split at hmid
  · rename_i f hlookup
    rw [applied_unregister] at hmid
    -- the key that is removed is the one of `c`; an open connection has a descriptor of its own
    refine ⟨hmid, fun hd' => hown ?_⟩
    rw [hlookup]
    refine owns_unregister.2 ⟨hd', fun hfd => hne ?_⟩
    -- the key was found by the descriptor, or by the object when that was closed
    obtain ⟨rfl, hopen | ⟨key, hkey, hfile⟩⟩ := fileobjLookup_cases hlookup
    · exact hi.unique d c hmid.1 hopen hfd
    · obtain ⟨key', hkey', hfile'⟩ := hd'
      rw [hfd] at hkey'
      cases hkey.symm.trans hkey'
      exact hfile'.symm.trans hfile
  · rename_i hlookup
    refine ⟨hmid, fun hd' => hown ?_⟩
    rw [hlookup]
    exact hd'

theorem keeps_foldl {g : Selector → Nat → Selector} (hinv : ∀ s c, Inv s → Inv (g s c))
    (hg : ∀ s c, Inv s → Keeps s (g s c)) (hi : Inv s) (cs : List Nat) :
    Keeps s (cs.foldl g s) := by
  induction cs generalizing s with
  | nil => exact fun c hc => ⟨hc, id⟩
  | cons c cs ih => exact (hg s c hi).trans (ih (hinv s c hi))

/-- A connection whose track operation is queued is not in use yet. -/
theorem keeps_enqueue (s : Selector) (c : Nat) :
    Keeps s { s.setTracked c true with ops := s.ops ++ [.track c] } := by
  rintro d ⟨hopen, htracked, hnot⟩
  simp only [List.mem_append, List.mem_singleton, not_or, Op.track.injEq] at hnot
  have hset : (s.setTracked c true).tracked d = true := htracked
  rw [tracked_setTracked, if_neg hnot.2] at hset
  have hconn : (s.setTracked c true).isOpen d = true := hopen
  rw [isOpen_setTracked] at hconn
  refine ⟨⟨hconn, hset, hnot.1⟩, fun hown => ?_⟩
  have hown' : (s.setTracked c true).Owns d := by simpa [Owns] using hown
  exact hown'

section OneConnection

variable {c : Nat}

/-- Another connection in use does not notice that a track operation is applied: it does not share
the descriptor with an open socket, nor its key with a closed one. -/
theorem applyTrack_other (hi : Inv s) {d : Nat} (hne : d ≠ c) (hd : (s.applyTrack c).Applied d) :
    s.Applied d ∧ (s.Owns d → (s.applyTrack c).Owns d) := by
  obtain ⟨hopen, -, heq⟩ | ⟨key, hkey, hfound, heq⟩ | ⟨-, heq⟩ := applyTrack_cases hi c
  · rw [heq] at hd ⊢
    have happlied : s.Applied d := hd
    have hfd : s.fd d ≠ s.fd c := fun h => hne (hi.unique d c happlied.1 hopen h)
    refine ⟨happlied, fun ⟨key, hkey, hfile⟩ => ⟨key, ?_, hfile⟩⟩
    exact (Function.update_of_ne hfd _ _).trans hkey
  · rw [heq] at hd ⊢
    have happlied : s.Applied d := hd
    refine ⟨happlied, fun hown => ?_⟩
    have hfd : s.fd d ≠ s.fd c := by
      intro h
      rcases hfound with hopen | hfile
      · exact hne (hi.unique d c happlied.1 hopen h)
      · obtain ⟨key', hkey', hfile'⟩ := hown
        rw [h] at hkey'
        cases hkey.symm.trans hkey'
        exact hne (hfile'.symm.trans hfile)
    obtain ⟨key', hkey', hfile'⟩ := hown
    exact ⟨key', (Function.update_of_ne hfd _ _).trans hkey', hfile'⟩
  · rw [heq] at hd ⊢
    exact keeps_untrack s c d hd

/-- The connection itself is in use afterwards with a key of its own, unless another socket left a
key under the descriptor. -/
theorem applyTrack_self (hi : Inv s) :
    ((s.applyTrack c).Applied c → (s.applyTrack c).Owns c) ↔
      (s.tracked c = true → s.isOpen c = true → Op.track c ∉ s.ops → s.KeyIsOwn c) := by
  obtain ⟨hopen, hnone, heq⟩ | ⟨key, hkey, hfound, heq⟩ | ⟨hclosed, heq⟩ := applyTrack_cases hi c
  · rw [heq]
    constructor
    -- no key: the connection registers itself and is its owner
    · intro _ _ _ _ key hkey
      cases hnone.symm.trans hkey
    · intro _ _
      exact ⟨⟨c, c⟩, by simp [Selector.fd], rfl⟩
  -- a key under the same descriptor: only `data` is exchanged, so the owner stays
  · rw [heq]
    constructor
    · intro h htracked hopen hnot key' hkey'
      obtain ⟨key'', hkey'', hfile⟩ := h ⟨hopen, htracked, hnot⟩
      simp only [Selector.fd, Function.update_self, Option.some.injEq] at hkey''
      cases hkey.symm.trans hkey'
      rw [← hkey''] at hfile
      exact hfile
    · rintro h ⟨hopen, htracked, hnot⟩
      exact ⟨{ key with data := c }, by simp [Selector.fd], h htracked hopen hnot key hkey⟩
  -- a closed connection is not applied
  · rw [heq]
    constructor
    · intro _ _ hopen
      cases hclosed.symm.trans hopen
    · rintro - ⟨hopen, -⟩
      rw [isOpen_setTracked] at hopen
      cases hclosed.symm.trans hopen

/-- Applying a track operation keeps everything visible exactly when no key of another socket is
left under the descriptor. -/
theorem applyTrack_owns (hi : Inv s) (hothers : ∀ d, d ≠ c → s.Applied d → s.Owns d) :
    (∀ d, (s.applyTrack c).Applied d → (s.applyTrack c).Owns d) ↔
      (s.tracked c = true → s.isOpen c = true → Op.track c ∉ s.ops → s.KeyIsOwn c) := by
  rw [← applyTrack_self hi]
  constructor
  · intro h
    exact h c
  · intro h d hd
    by_cases hdc : d = c
    · rw [hdc] at hd ⊢
      exact h hd
    · obtain ⟨happlied, hown⟩ := applyTrack_other hi hdc hd
      exact hown (hothers d hdc happlied)

/-- Dropping a descriptor by number keeps everything visible exactly when no connection in use has
the number. -/
theorem unregister_owns (hi : Inv s) {fd : Nat} (hall : ∀ d, s.Applied d → s.Owns d) :
    (∀ d, (s.unregister fd).Applied d → (s.unregister fd).Owns d) ↔ s.NotInUse fd none := by
  constructor
  · intro h d _ _ hd
    exact (owns_unregister.1 (h d (applied_unregister.2 hd))).2
  · intro h d hd
    rw [applied_unregister] at hd
    exact owns_unregister.2 ⟨hall d hd, h d (hi.lt_next hd.1) (by simp) hd⟩

theorem applied_closed {d : Nat} :
    ((s.setTracked c false).sockClose c).Applied d ↔ d ≠ c ∧ s.Applied d := by
  simp only [Applied, isOpen_sockClose, tracked_sockClose, tracked_setTracked, isOpen_setTracked,
    ops_sockClose, ops_setTracked]
  by_cases h : d = c
  · simp [h]
  · simp [h]

/-- A `close` on the selector thread keeps everything visible exactly when no other connection in
use has the number it drops. -/
theorem closeHere_owns (hi : Inv s) (hall : ∀ d, s.Applied d → s.Owns d) :
    (∀ d, (s.closeHere c).Applied d → (s.closeHere c).Owns d) ↔
      (s.tracked c = true → s.NotInUse (s.fd c) (some c)) := by
  have hkeeps := (keeps_untrack s c).trans (keeps_sockClose (s.setTracked c false) c)
  have hclosed := hkeeps.owns hall
  unfold closeHere
  split
  · rename_i htracked
    rw [unregister_owns ((hi.setTracked c false).sockClose c) hclosed]
    simp only [NotInUse, applied_closed, next_sockClose, next_setTracked, fd_sockClose,
      fd_setTracked, htracked]
    constructor
    · intro h _ d hlt hne hd
      exact h d hlt (by simp) ⟨fun heq => hne (congrArg some heq.symm), hd⟩
    · intro h d hlt _ hd
      exact h trivial d hlt (fun heq => hd.1 (Option.some.inj heq).symm) hd.2
  · rename_i htracked
    exact ⟨fun _ h => absurd h htracked, fun _ => hclosed⟩

end OneConnection

/-- A step keeps everything visible exactly when it meets the condition. -/
theorem step_visible {a : Act} (hi : Inv s) (hP : s.Visible) (h : s.step a = some s') :
    s'.Visible ↔ s.SafeOp a := by
  have hall := (visible_iff hi).1 hP
  rw [visible_iff (step_inv hi h)]
  -- Most steps meet their condition always and keep what the selector sees.
  have hkeep : s.SafeOp a → Keeps s s' → ((∀ c, s'.Applied c → s'.Owns c) ↔ s.SafeOp a) :=
    fun hsafe hk => ⟨fun _ => hsafe, fun _ => hk.owns hall⟩
  cases a with
  | accept fd =>
    obtain ⟨-, ⟨⟩⟩ := Option.ite_none_right_eq_some.1 h
    refine hkeep trivial ?_
    rintro c ⟨hopen, htracked, hnot⟩
    simp only [isOpen, tracked, Owns, Selector.fd] at hopen htracked ⊢
    by_cases hc : c = s.next
    · rw [hc, Function.update_self] at htracked
      cases htracked
    · rw [Function.update_of_ne hc] at hopen htracked ⊢
      exact ⟨⟨hopen, htracked, hnot⟩, id⟩
  | track c here =>
    obtain ⟨-, ⟨⟩⟩ := Option.ite_none_right_eq_some.1 h
    unfold Selector.track
    simp only [SafeOp]
    split
    · rename_i htracked
      simp only [htracked]
      exact ⟨fun _ _ hfalse => (by cases hfalse), fun _ => hall⟩
    · rename_i htracked
      split
      · rename_i hhere
        have hset := hi.setTracked c true
        rw [applyTrack_owns hset, tracked_setTracked, if_pos rfl]
        · simp [hhere, htracked, KeyIsOwn]
        · intro d hdc hd
          have hd' : s.Applied d := by simpa [Applied, tracked_setTracked, hdc] using hd
          simpa [Owns] using hall d hd'
      · rename_i hhere
        exact ⟨fun _ htrue => absurd htrue hhere, fun _ => (keeps_enqueue s c).owns hall⟩
  | postTrack c =>
    obtain ⟨-, ⟨⟩⟩ := Option.ite_none_right_eq_some.1 h
    exact hkeep trivial (keeps_enqueue s c)
  | postClose fd =>
    cases h
    exact hkeep trivial (.of_eq rfl rfl fun c hmem => List.mem_append_left _ hmem)
  | stopTracking c =>
    obtain ⟨-, ⟨⟩⟩ := Option.ite_none_right_eq_some.1 h
    exact hkeep trivial (keeps_stopTracking hi c)
  | closeMark c =>
    obtain ⟨-, ⟨⟩⟩ := Option.ite_none_right_eq_some.1 h
    exact hkeep trivial ((keeps_untrack s c).trans (.of_eq rfl rfl fun _ => id))
  | closeSock i =>
    obtain ⟨⟨c, wasTracked⟩, -, rfl⟩ := Option.map_eq_some_iff.1 h
    exact hkeep trivial ((keeps_sockClose s c).trans (.of_eq rfl rfl fun _ => id))
  | closePost i =>
    obtain ⟨fd, -, rfl⟩ := Option.map_eq_some_iff.1 h
    exact hkeep trivial (.of_eq rfl rfl fun c hmem => List.mem_append_left _ hmem)
  | closeHere c =>
    obtain ⟨-, ⟨⟩⟩ := Option.ite_none_right_eq_some.1 h
    exact closeHere_owns hi hall
  | drain =>
    simp only [step, drain] at h
    split at h
    · cases h
    · rename_i c rest hops
      cases h
      have hpop : Inv { s with ops := rest } :=
        hi.of_eq rfl (fun _ => rfl) (fun _ => rfl) rfl rfl
      rw [applyTrack_owns hpop]
      · simp only [SafeOp, hops]
        exact Iff.rfl
      -- Another connection waits in the queue after the pop as it did before.
      · rintro d hdc ⟨hopen, htracked, hnot⟩
        refine hall d ⟨hopen, htracked, ?_⟩
        rw [hops]
        simpa [hdc] using hnot
    · rename_i fd rest hops
      cases h
      have hpop : Inv { s with ops := rest } :=
        hi.of_eq rfl (fun _ => rfl) (fun _ => rfl) rfl rfl
      have happlied : ∀ d, Applied { s with ops := rest } d ↔ s.Applied d := by
        intro d
        unfold Applied
        rw [hops]
        simp [isOpen, tracked]
      rw [unregister_owns hpop fun d hd => hall d ((happlied d).1 hd)]
      simp only [SafeOp, hops, NotInUse, happlied]
      exact Iff.rfl
  | cleanupStale late =>
    cases h
    have hstop : ∀ r c, Inv r → Inv (r.stopTracking c) := fun r c hr => hr.stopTracking c
    have hclose : ∀ r c, Inv r → Inv (r.sockClose c) := fun r c hr => hr.sockClose c
    refine hkeep trivial ?_
    unfold cleanupStale
    exact (keeps_foldl hstop (fun r c hr => keeps_stopTracking hr c) hi _).trans
      (keeps_foldl hclose (fun r c _ => keeps_sockClose r c) (hi.foldl hstop _) _)

end Selector

/-! ## Runs -/

/-- In a run every open, tracked and applied connection stays visible exactly when every step meets
`SafeOp`. -/
theorem stale_ops_safe {as : List Act} {s : Selector}
    (hrun : system.exec Selector.start as = some s) :
    system.Throughout Selector.Visible Selector.start as ↔
      system.Meets Selector.SafeOp Selector.start as :=
  Lts.throughout_iff_meets (fun _ _ _ hi hstep => Selector.step_inv hi hstep)
    (fun _ _ _ hi hP hstep => Selector.step_visible hi hP hstep) Selector.inv_start
    (fun _ hc => by cases hc.1) hrun

/-- The descriptor of a connection closed by a worker goes to the next connection after its
`_OpClose` has been applied. -/
def reuseAfterDrain : List Act :=
  [.accept 5, .track 0 true, .closeMark 0, .closeSock 0, .closePost 0, .drain, .accept 5,
    .track 1 true]

theorem stale_ops_safe_reuseAfterDrain :
    system.Throughout Selector.Visible Selector.start reuseAfterDrain := by
  have hrun : (system.exec Selector.start reuseAfterDrain).isSome := by decide
  obtain ⟨s, hs⟩ := Option.isSome_iff_exists.1 hrun
  exact (stale_ops_safe hs).2 (by decide)

/-- A worker closes connection 0, which had descriptor 5. Before it posts its operation, connection
1 is accepted with the same descriptor and tracked. -/
def reuseBeforeDrain : List Act :=
  [.accept 5, .track 0 true, .closeMark 0, .closeSock 0, .accept 5, .track 1 true]

/-- The key left by connection 0 hides connection 1 from the poll set; the operation posted for
connection 0 then takes connection 1 out of the map. -/
theorem visible_after_stale_close :
    ∃ s s' : Selector, system.Reachable s ∧ s.Applied 1 ∧ s.fd 1 = 5 ∧
      s.map 5 = some ⟨0, 1⟩ ∧ s.kernel 5 = false ∧ ¬s.Visible ∧
      system.exec s [.closePost 0, .drain] = some s' ∧ s'.Applied 1 ∧ s'.ops = [] ∧
      s'.map 5 = none ∧ s'.kernel 5 = false ∧ ¬s'.Visible := by
  have hreach := Lts.Reachable.of_isSome (M := system) rfl reuseBeforeDrain (by decide)
  generalize hs : (system.exec Selector.start reuseBeforeDrain).get _ = s at hreach
  have hnext : (system.exec s [.closePost 0, .drain]).isSome := by
    -- the run goes on with the late close of the first connection
    subst hs
    decide
  have happlied : s.Applied 1 := by
    subst hs
    decide
  have hkernel : s.kernel 5 = false := by
    subst hs
    rfl
  have hfd : s.fd 1 = 5 := by
    subst hs
    rfl
  obtain ⟨s', hs'⟩ := Option.isSome_iff_exists.1 hnext
  have hrun : system.exec Selector.start (reuseBeforeDrain ++ [.closePost 0, .drain]) = some s' :=
    (Lts.exec_append _).2 ⟨s, by rw [← hs, Option.some_get], hs'⟩
  cases hrun
  refine ⟨s, _, hreach, happlied, hfd, ?_, hkernel, fun h => ?_, hs', by decide, rfl, rfl, rfl,
    fun h => ?_⟩
  · subst hs
    rfl
  -- the kernel does not have the descriptor, whatever the map says
  · obtain ⟨key, -, -, hpolled⟩ := h 1 happlied
    rw [hfd, hkernel] at hpolled
    cases hpolled
  · obtain ⟨key, hkey, -⟩ := h 1 (by decide)
    cases hkey

end LocalPost.Http.Base
