import LocalPost.Http.SocketMode.Invariant

/-!
# The helpers keep the invariant

`switched` breaks the invariant for one socket and mends it on every way out (`keeps_switched`);
`maybeGiveBack` registers a connection whose socket it has switched back. The other helpers do not
touch a mode.
-/

set_option autoImplicit false

namespace LocalPost.Http.SocketMode

open LocalPost.Core LocalPost.Http.Base

variable {P : Nat → Prop} {n c : Nat} {cfg : Config}

/-! ## Calls outside -/

theorem keeps_ask : Keeps (InvFor P n) ask := by
  intro s hs
  rw [ask.eq_def]
  cases s.answers with
  | nil => exact hs
  | cons a rest =>
    have hrest : InvFor P n { s with answers := rest } := hs.of_same rfl rfl (fun _ => rfl) rfl
    cases a <;> exact hrest

theorem keeps_askSocket : Keeps (InvFor P n) (askSocket c) :=
  Keeps.get_bind fun _ => Keeps.ite keeps_ask (Keeps.throw _)

theorem keeps_sockSend : Keeps (InvFor P n) (sockSend c) := by
  apply Keeps.bind keeps_askSocket
  intro a
  cases a with
  | sent k => exact Keeps.pure k
  | _ => exact Keeps.throw _

theorem keeps_sockRecv : Keeps (InvFor P n) (sockRecv c) := by
  apply Keeps.bind keeps_askSocket
  intro a
  cases a with
  | received data => exact Keeps.pure data
  | _ => exact Keeps.throw _

theorem keeps_sockSendall : Keeps (InvFor P n) (sockSendall c) := by
  apply Keeps.bind keeps_askSocket
  intro a
  cases a with
  | returns => exact Keeps.pure _
  | _ => exact Keeps.throw _

theorem keeps_startSoon {serve : HandlerRun → Nat → Prog PUnit}
    (hserve : ∀ h k, Keeps (InvFor P n) (serve h k))
    (k : Nat) : Keeps (InvFor P n) (startSoon serve k) := by
  apply Keeps.bind keeps_ask
  intro a
  cases a with
  | started calls => exact hserve _ k
  | _ => exact Keeps.throw _

theorem keeps_quietly {m : Prog PUnit} (hm : Keeps (InvFor P n) m) :
    Keeps (InvFor P n) (quietly m) := by
  apply Keeps.bind hm.attempt
  intro result
  cases result with
  | ok _ => exact Keeps.pure _
  | error e => exact Keeps.ite (Keeps.pure _) (Keeps.throw _)

theorem keeps_setCtx (k : Nat) (f : Ctx → Ctx) : Keeps (InvFor P n) (setCtx k f) := by
  apply Keeps.modify
  intro s hs
  refine hs.of_same rfl rfl (fun j => ?_) rfl
  by_cases hj : j = k
  · subst hj
    simp
  · simp [hj]

theorem keeps_setConn (c : Nat) (f : HTTPConn → HTTPConn) : Keeps (InvFor P n) (setConn c f) :=
  Keeps.modify fun _ hs => hs.of_same rfl rfl (fun _ => rfl) rfl

/-- A context belongs to an accepted connection. -/
theorem getCtx_spec (k : Nat) :
    Triple (InvFor P n) (getCtx k) (fun x s => InvFor P n s ∧ x.conn < n) (InvFor P n) := by
  apply Triple.get_bind
  intro s hs
  split
  · rename_i hk
    apply Triple.pure
    rintro t rfl
    exact ⟨hs, hs.ctxs k hk⟩
  · apply Triple.throw
    rintro t rfl
    exact hs

theorem keeps_getCtx_bind {α : Type} {k : Nat} {f : Ctx → Prog α}
    (hf : ∀ x, x.conn < n → Keeps (InvFor P n) (f x)) : Keeps (InvFor P n) (getCtx k >>= f) := by
  apply Triple.bind (getCtx_spec k)
  intro x s hs
  exact hf x hs.2 s hs.1

/-! ## The mode -/

/-- Into blocking mode: the socket is left out of the invariant, or it is closed, or nothing was
done. -/
theorem settimeout_spec (t : ℚ) :
    Triple (Inv n) (settimeout c t) (fun _ => InvFor (· ≠ c) n) (Inv n) := by
  intro s hs
  rw [settimeout]
  by_cases hneg : t < 0
  · rw [if_pos hneg]
    exact hs
  · rw [if_neg hneg]
    have hset := hs.weaken.setTimeout (c := c) t
    by_cases hopen : s.sel.isOpen c = true
    · rw [if_pos hopen]
      exact hset
    · rw [if_neg hopen]
      exact hset.whole fun h => absurd h hopen

/-- On a closed socket `settimeout(0)` raises, and sets the timeout all the same. -/
theorem settimeout_zero_run (s : State) :
    settimeout c 0 s =
      if s.sel.isOpen c then .ok ⟨⟩ { s with timeout := Function.update s.timeout c 0 }
      else .error .osError { s with timeout := Function.update s.timeout c 0 } := by
  rw [settimeout, if_neg (by decide)]

/-- Back into non-blocking mode. -/
theorem settimeout_zero :
    Triple (InvFor (· ≠ c) n) (settimeout c 0) (fun _ => Inv n) (Inv n) := by
  intro s hs
  have hset := (hs.setTimeout 0).whole fun _ _ => Function.update_self c 0 s.timeout
  rw [settimeout_zero_run]
  by_cases hopen : s.sel.isOpen c = true
  · rw [if_pos hopen]
    exact hset
  · rw [if_neg hopen]
    exact hset

/-- The `finally` part: a connection that is not marked stays in the mode it is in. -/
theorem restore_spec : Triple (InvFor (· ≠ c) n) (restore c) (fun _ => Inv n) (Inv n) := by
  apply Triple.get_bind
  intro s hs
  rw [onlyIf]
  split
  · exact settimeout_zero.pre fun t ht => ht ▸ hs
  · rename_i hnot
    apply Triple.pure
    rintro t rfl
    exact hs.whole fun _ htracked => absurd htracked hnot

/-- A call in blocking mode keeps the invariant, whatever way it ends. -/
theorem keeps_switched {α : Type} {call : Prog α} (hcall : Keeps (InvFor (· ≠ c) n) call) :
    Keeps (Inv n) (switched cfg c call) :=
  Triple.bind (settimeout_spec cfg.rwTimeout) fun _ => Triple.tryFinally hcall restore_spec

/-- The loop of `_send_all` leaves the mode as it finds it. -/
theorem keeps_sendLoop (m : Nat) (view : Bytes) : Keeps (Inv n) (sendLoop cfg c m view) := by
  induction m generalizing view with
  | zero => exact Keeps.pure _
  | succ m ih =>
    rw [sendLoop]
    apply Keeps.ite (Keeps.pure _)
    apply Keeps.bind keeps_sockSend.attempt
    intro result
    match result with
    | .ok 0 => exact Keeps.throw _
    | .ok (k + 1) => exact ih _
    | .error e =>
      cases e with
      | blockingIOError => exact keeps_switched keeps_sockSendall
      | _ => exact Keeps.throw _

theorem keeps_sendAll (payload : Bytes) : Keeps (Inv n) (sendAll cfg c payload) :=
  keeps_sendLoop payload.length payload

/-- `settimeout(0)` does not raise under `except OSError`. -/
theorem settimeoutQuietly_run (s : State) :
    settimeoutQuietly c s = .ok ⟨⟩ { s with timeout := Function.update s.timeout c 0 } := by
  change EStateM.bind (attempt (settimeout c 0)) _ s = _
  rw [EStateM.bind, attempt, settimeout_zero_run]
  by_cases hopen : s.sel.isOpen c = true
  · rw [if_pos hopen]
    rfl
  · rw [if_neg hopen]
    rfl

theorem settimeoutQuietly_spec :
    Triple (InvFor (· ≠ c) n) (settimeoutQuietly c) (fun _ => Inv n) (Inv n) := by
  intro s hs
  rw [settimeoutQuietly_run]
  exact (hs.setTimeout 0).whole fun _ _ => Function.update_self c 0 s.timeout

/-- The mode of the socket is restored on either way out. -/
theorem restoreQuietly_spec : Triple (InvFor (· ≠ c) n) (restoreQuietly c)
    (fun _ => Inv n) (Inv n) := by
  apply Triple.get_bind
  intro s hs
  rw [onlyIf]
  split
  · exact settimeoutQuietly_spec.pre fun t ht => ht ▸ hs
  · rename_i hnot
    apply Triple.pure
    rintro t rfl
    exact hs.whole fun _ htracked => absurd htracked hnot

theorem keeps_sockSendfile : Keeps (Inv n) (sockSendfile cfg c) :=
  Triple.bind (settimeout_spec cfg.rwTimeout) fun _ =>
    Triple.tryFinally keeps_sockSendall restoreQuietly_spec

/-! ## Registration -/

/-- What `track` and `post_track` do with a connection: they close it, or mark it and register
it. -/
theorem InvFor.registered {s : State} (hs : Inv n s) {sel : Selector}
    (hbooks : Books sel) (hnext : sel.next = s.sel.next)
    (hopen : ∀ d, sel.isOpen d = true → s.sel.isOpen d = true)
    (htracked : ∀ d, sel.isOpen d = true → sel.tracked d = true → s.sel.tracked d = true ∨ d = c)
    (hmode : s.sel.isOpen c = true → s.timeout c = 0) : Inv n { s with sel := sel } where
  books := hbooks
  accepted := hnext.trans hs.accepted
  ctxs := hs.ctxs
  mode d _ hd hmark := by
    rcases htracked d hd hmark with hold | hc
    · exact hs.mode d trivial (hopen d hd) hold
    · rw [hc]
      exact hmode (hc ▸ hopen d hd)

/-- `track` closes the connection on a selector that shuts down. -/
theorem InvFor.rejected {s : State} (hs : InvFor P n s) (c : Nat) :
    InvFor P n { s with sel := (s.sel.sockClose c).setTracked c false } := by
  have hclosed : (s.sel.sockClose c).isOpen c = false := by
    rw [Selector.isOpen_sockClose, if_pos rfl]
  exact hs.quieter ((Quieter.sockClose s.sel c).trans (Quieter.setTracked hclosed))
    ((hs.books.inv.sockClose c).setTracked c false)

/-- After `track` nothing is open or marked that was not, apart from the connection itself. -/
theorem track_adds {sel : Selector} (hi : sel.Inv) (c : Nat) (here : Bool) :
    (sel.track c here).next = sel.next ∧
    (∀ d, (sel.track c here).isOpen d = true → sel.isOpen d = true) ∧
    ∀ d, (sel.track c here).isOpen d = true → (sel.track c here).tracked d = true →
      sel.tracked d = true ∨ d = c := by
  -- the flag is set for `c` only
  have hmark : ∀ d, (sel.setTracked c true).tracked d = true → sel.tracked d = true ∨ d = c := by
    intro d hd
    rw [Selector.tracked_setTracked] at hd
    split at hd
    · rename_i hdc
      exact .inr hdc
    · exact .inl hd
  rw [Selector.track]
  -- tracked already; on the selector's thread; posted from another one
  split
  · exact ⟨rfl, fun _ h => h, fun _ _ h => .inl h⟩
  · split
    · have hadds := applyTrack_adds (hi.setTracked c true) c
      refine ⟨hadds.next, fun d hd => ?_, fun d hd hd' => ?_⟩
      · have hopen := hadds.isOpen d hd
        rwa [Selector.isOpen_setTracked] at hopen
      · rw [hadds.tracked d hd] at hd'
        exact hmark d hd'
    · refine ⟨rfl, fun d hd => ?_, fun d _ hd => hmark d hd⟩
      change (sel.setTracked c true).isOpen d = true at hd
      rwa [Selector.isOpen_setTracked] at hd

theorem track_spec (hlt : c < n) (here : Bool) :
    Triple (fun s => Inv n s ∧ (s.sel.isOpen c = true → s.timeout c = 0)) (track c here)
      (fun _ => Inv n) (Inv n) := by
  apply Triple.modify
  rintro s ⟨hs, hmode⟩
  split
  · exact hs.rejected c
  · obtain ⟨hnext, hopen, htracked⟩ := track_adds hs.books.inv c here
    exact hs.registered (hs.books.track (hs.accepted ▸ hlt) here) hnext hopen htracked hmode

/-- `post_track` keeps the invariant, if the open socket is non-blocking. -/
theorem postTrack_spec (hlt : c < n) :
    Triple (fun s => Inv n s ∧ (s.sel.isOpen c = true → s.timeout c = 0)) (postTrack c)
      (fun _ => Inv n) (Inv n) := by
  apply Triple.modify
  rintro s ⟨hs, hmode⟩
  split
  · exact hs.rejected c
  · refine hs.registered (hs.books.postTrack (hs.accepted ▸ hlt)) rfl (fun d hd => ?_)
      (fun d _ hd => ?_) hmode
    · change (s.sel.setTracked c true).isOpen d = true at hd
      rwa [Selector.isOpen_setTracked] at hd
    · change (s.sel.setTracked c true).tracked d = true at hd
      rw [Selector.tracked_setTracked] at hd
      split at hd
      · rename_i hdc
        exact .inr hdc
      · exact .inl hd

/-- A connection is given back with its socket in non-blocking mode, unless the socket is closed. -/
theorem keeps_maybeGiveBack (k : Nat) (here : Bool) : Keeps (Inv n) (maybeGiveBack k here) := by
  apply keeps_getCtx_bind
  intro x hlt
  apply Triple.get_bind
  intro s hs
  split
  · apply Triple.pure
    rintro t rfl
    exact hs
  · have hready : Triple (fun t => t = s)
        (onlyIf (s.timeout x.conn ≠ 0) (settimeoutQuietly x.conn))
        (fun _ t => Inv n t ∧ (t.sel.isOpen x.conn = true → t.timeout x.conn = 0)) (Inv n) := by
      rw [onlyIf]
      split
      · rintro t rfl
        have hquiet := settimeoutQuietly_spec (c := x.conn) t hs.weaken
        rw [settimeoutQuietly_run] at hquiet ⊢
        exact ⟨hquiet, fun _ => Function.update_self x.conn 0 t.timeout⟩
      · rename_i hzero
        apply Triple.pure
        rintro t rfl
        exact ⟨hs, fun _ => not_not.1 hzero⟩
    exact Triple.bind hready fun _ => track_spec hlt here

theorem keeps_stopTracking (c : Nat) : Keeps (Inv n) (stopTracking c) := by
  apply Keeps.modify
  intro s hs
  refine ⟨hs.books.stopTracking c, ?_, hs.ctxs, fun d _ hopen htracked => ?_⟩
  · change (s.sel.unregisterSock c).next = n
    rw [← hs.accepted, Selector.unregisterSock]
    split
    · exact Selector.next_unregister _ _
    · rfl
  · have hsame : (s.sel.unregisterSock c).isOpen d = s.sel.isOpen d ∧
        (s.sel.unregisterSock c).tracked d = s.sel.tracked d := by
      rw [Selector.unregisterSock]
      split
      · exact ⟨Selector.isOpen_unregister _ _ _, Selector.tracked_unregister _ _ _⟩
      · exact ⟨rfl, rfl⟩
    have hopen' : (s.sel.stopTracking c).isOpen d = true := hopen
    have htracked' : (s.sel.stopTracking c).tracked d = true := htracked
    rw [Selector.stopTracking, Selector.isOpen_setTracked, hsame.1] at hopen'
    rw [Selector.stopTracking, Selector.tracked_setTracked] at htracked'
    split at htracked'
    · cases htracked'
    · exact hs.mode d trivial hopen' (hsame.2 ▸ htracked')

/-- The close of a connection leaves fewer keys and sockets. -/
theorem closedBy_quieter {sel : Selector} (hi : sel.Inv) (c : Nat) (here : Bool) :
    Quieter sel (closedBy sel c here) ∧ (closedBy sel c here).Inv := by
  have hclosed := Quieter.untrackClose sel c
  have hinv := (hi.setTracked c false).sockClose c
  rw [closedBy]
  split
  · refine ⟨?_, hi.closeHere c⟩
    rw [Selector.closeHere.eq_def]
    dsimp only
    split
    · exact hclosed.trans (Quieter.unregister _ _)
    · exact hclosed
  · split
    · exact ⟨hclosed.trans (Quieter.postClose _ _), hinv.of_eq rfl (fun _ => rfl)
        (fun _ => rfl) rfl rfl⟩
    · exact ⟨hclosed, hinv⟩

theorem keeps_closeConn (c : Nat) (here : Bool) : Keeps (Inv n) (closeConn c here) := by
  apply Keeps.modify
  intro s hs
  obtain ⟨hquiet, hinv⟩ := closedBy_quieter hs.books.inv c here
  exact hs.quieter hquiet hinv

end LocalPost.Http.SocketMode
