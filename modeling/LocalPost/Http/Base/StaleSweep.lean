import LocalPost.Http.Base.DeadlineRuns
import Mathlib.Algebra.Order.Group.MinMax

/-!
# Which connections the stale sweep closes

A sweep may close a connection whose response has only just been completed: when a worker has
completed it, the deadline is still the one from the receipt of the request (`closed_early`).
`keptAlive_iff` says when the sweeps respect `keep_alive_timeout`, and `keptAlive_of_inline` that
they do after a response that is completed inline to a request that has arrived whole.

A connection that has never sent a byte has no deadline, and no sweep closes it (`never_closed`).
`sweptInTime_iff` says which connections are closed in time.
-/

set_option autoImplicit false

namespace LocalPost.Http.Base.Deadlines

open LocalPost.Core

/-! ## One sweep -/

section Sweep

variable (s : Selector) (cs : List Nat) (d : Nat)

theorem isOpen_foldl_sockClose :
    (cs.foldl Selector.sockClose s).isOpen d = if d ∈ cs then false else s.isOpen d := by
  induction cs generalizing s with
  | nil => simp
  | cons c cs ih =>
    rw [List.foldl_cons, ih, Selector.isOpen_sockClose]
    by_cases hmem : d ∈ cs
    · simp [hmem]
    · simp [hmem]

theorem map_foldl_sockClose : (cs.foldl Selector.sockClose s).map = s.map := by
  induction cs generalizing s with
  | nil => rfl
  | cons c cs ih => rw [List.foldl_cons, ih, Selector.map_sockClose]

theorem fd_foldl_sockClose : (cs.foldl Selector.sockClose s).fd d = s.fd d := by
  induction cs generalizing s with
  | nil => rfl
  | cons c cs ih => rw [List.foldl_cons, ih, Selector.fd_sockClose]

theorem conns_unregisterSock (c : Nat) : (s.unregisterSock c).conns = s.conns := by
  unfold Selector.unregisterSock
  split
  · exact Selector.conns_unregister s _
  · rfl

@[simp] theorem isOpen_stopTracking (c : Nat) : (s.stopTracking c).isOpen d = s.isOpen d := by
  rw [Selector.stopTracking, Selector.isOpen_setTracked]
  unfold Selector.isOpen
  rw [conns_unregisterSock]

@[simp] theorem fd_stopTracking (c : Nat) : (s.stopTracking c).fd d = s.fd d := by
  rw [Selector.stopTracking, Selector.fd_setTracked]
  unfold Selector.fd
  rw [conns_unregisterSock]

theorem isOpen_foldl_stopTracking : (cs.foldl Selector.stopTracking s).isOpen d = s.isOpen d := by
  induction cs generalizing s with
  | nil => rfl
  | cons c cs ih => rw [List.foldl_cons, ih, isOpen_stopTracking]

theorem fd_foldl_stopTracking : (cs.foldl Selector.stopTracking s).fd d = s.fd d := by
  induction cs generalizing s with
  | nil => rfl
  | cons c cs ih => rw [List.foldl_cons, ih, fd_stopTracking]

theorem map_stopTracking_none {f : Nat} (c : Nat) (h : s.map f = none) :
    (s.stopTracking c).map f = none := by
  rw [Selector.stopTracking, Selector.map_setTracked]
  unfold Selector.unregisterSock
  split
  · rw [Selector.map_unregister, h, ite_self]
  · exact h

theorem map_stopTracking_self (hopen : s.isOpen d = true) :
    (s.stopTracking d).map (s.fd d) = none := by
  rw [Selector.stopTracking, Selector.map_setTracked]
  unfold Selector.unregisterSock
  rw [Selector.fileobjLookup_open hopen]
  simp [Selector.map_unregister]

theorem map_foldl_stopTracking_none {f : Nat} (h : s.map f = none) :
    (cs.foldl Selector.stopTracking s).map f = none := by
  induction cs generalizing s with
  | nil => exact h
  | cons c cs ih => exact ih _ (map_stopTracking_none s c h)

/-- What is stopped has no key under its descriptor any more, whatever is stopped with it. -/
theorem map_foldl_stopTracking (hmem : d ∈ cs) (hopen : s.isOpen d = true) :
    (cs.foldl Selector.stopTracking s).map (s.fd d) = none := by
  induction cs generalizing s with
  | nil => cases hmem
  | cons c cs ih =>
    rw [List.foldl_cons]
    rcases List.mem_cons.1 hmem with rfl | hmem
    · exact map_foldl_stopTracking_none _ cs (map_stopTracking_self s d hopen)
    · have hrest := ih (s.stopTracking c) hmem (by rw [isOpen_stopTracking]; exact hopen)
      rwa [fd_stopTracking] at hrest

end Sweep

namespace Server

variable {cfg : ServerConfig} {s s' : Server} {c : Nat}

theorem mem_stale_iff (hi : s.sel.Inv) (hopen : s.sel.isOpen c = true)
    (hregistered : s.registered c = true) :
    (c ∈ ((List.range s.sel.next).filter s.isStale).filter fun c =>
      (s.sel.map (s.sel.fd c)).any fun key => key.data = c) ↔ s.isStale c = true := by
  have hlt : c < s.sel.next := hi.lt_next hopen
  unfold registered at hregistered
  simp [List.mem_filter, hlt, hregistered]

/-- A sweep closes an open registered connection exactly when its deadline has passed. -/
theorem isOpen_cleanupStale (hi : s.sel.Inv) (hopen : s.sel.isOpen c = true)
    (hregistered : s.registered c = true) :
    s.cleanupStale.sel.isOpen c = false ↔ s.isStale c = true := by
  rw [← mem_stale_iff hi hopen hregistered]
  unfold cleanupStale Selector.cleanupStale
  rw [isOpen_foldl_sockClose, isOpen_foldl_stopTracking, hopen]
  split
  · rename_i hmem
    exact iff_of_true rfl hmem
  · rename_i hmem
    exact iff_of_false (by simp) hmem

theorem registered_cleanupStale (hi : s.sel.Inv) (hopen : s.sel.isOpen c = true)
    (hregistered : s.registered c = true) (hstale : s.isStale c = true) :
    s.cleanupStale.registered c = false := by
  have hmem := (mem_stale_iff hi hopen hregistered).2 hstale
  unfold registered cleanupStale Selector.cleanupStale
  rw [map_foldl_sockClose, fd_foldl_sockClose, fd_foldl_stopTracking,
    map_foldl_stopTracking _ _ _ hmem hopen]
  rfl

/-- Time passes, then a sweep: the run the deadlines are about. -/
theorem exec_sweep {d : ℚ} (hrest : s.running = none) :
    (lts cfg).exec s [.tick d, .sweep] = some s' ↔
      0 ≤ d ∧ cleanupStale { s with now := s.now + d } = s' := by
  rw [Lts.exec_cons]
  constructor
  · rintro ⟨u, htick, hsweep⟩
    obtain ⟨hd, ⟨⟩⟩ := Option.ite_none_right_eq_some.1 htick
    obtain ⟨v, hv, hend⟩ := (Lts.exec_cons _).1 hsweep
    obtain ⟨-, ⟨⟩⟩ := Option.ite_none_left_eq_some.1 hv
    exact ⟨hd, Option.some.inj hend⟩
  · rintro ⟨hd, rfl⟩
    refine ⟨_, if_pos hd, (Lts.exec_cons _).2 ⟨_, if_neg ?_, rfl⟩⟩
    simp [hrest]

/-! ## The invariant of a run -/

theorem inv_start {t : ℚ} (ht : 0 < t) : Inv cfg (start t) where
  clock := ht
  sel := Selector.inv_start
  bound c point h := by cases h
  kept c h := absurd h (Nat.not_lt_zero c)

theorem inv_of_reachable (h : (lts cfg).Reachable s) : Inv cfg s := by
  have hstep : ∀ s a t, Inv cfg s → (lts cfg).step s a = some t → Inv cfg t :=
    fun s a t hi hnext => step_inv hi hnext
  refine Lts.invariant ?_ hstep h
  rintro s ⟨t, ht, rfl⟩
  exact inv_start ht

/-- A deadline is never zero, which the sweep would take for none. -/
theorem closeAt_pos {now : ℚ} {loop : Option Point} {tracked : Bool} {conn : HTTPConn}
    (h : Kept cfg now loop tracked conn) {a : ℚ} (ha : conn.closeAt = some a) : 0 < a := by
  cases hfed : conn.fed with
  | false =>
    rw [h.unfed hfed] at ha
    cases ha
  | true =>
    cases hrolled : conn.rolledAt with
    | none =>
      obtain ⟨r, hpos, -, hat⟩ := h.received hfed hrolled
      cases ha.symm.trans hat
      have := cfg.rw_nonneg
      linarith
    | some u =>
      obtain ⟨hpos, hat⟩ := h.rolled hfed u hrolled
      cases ha.symm.trans hat
      have := cfg.keepAlive_nonneg
      linarith

/-- A connection is stale exactly when its deadline is over. -/
theorem isStale_iff (hi : Inv cfg s) (hopen : s.sel.isOpen c = true) (d : ℚ) :
    isStale { s with now := s.now + d } c = true ↔
      ∃ a, (s.conn c).closeAt = some a ∧ a < s.now + d := by
  unfold isStale
  cases ha : (s.conn c).closeAt with
  | none => simp
  | some a =>
    -- the sweep skips a deadline that is zero, and none is
    have hpos := closeAt_pos (hi.kept c (hi.sel.lt_next hopen)) ha
    simp [hpos.ne']

/-- A sweep, some time from now, over an open registered connection. -/
theorem swept (hi : Inv cfg s) (hrest : s.running = none) (hopen : s.sel.isOpen c = true)
    (hregistered : s.registered c = true) {d : ℚ}
    (hrun : (lts cfg).exec s [.tick d, .sweep] = some s') :
    0 ≤ d ∧ s'.now = s.now + d ∧
      (s'.sel.isOpen c = false ↔ ∃ a, (s.conn c).closeAt = some a ∧ a < s.now + d) ∧
      (s'.sel.isOpen c = false → s'.registered c = false) := by
  obtain ⟨hd, rfl⟩ := (exec_sweep hrest).1 hrun
  have hclosed := isOpen_cleanupStale (s := { s with now := s.now + d }) hi.sel hopen hregistered
  refine ⟨hd, rfl, hclosed.trans (isStale_iff hi hopen d), fun h => ?_⟩
  exact registered_cleanupStale (s := { s with now := s.now + d }) hi.sel hopen hregistered
    (hclosed.1 h)

end Server

/-! ## The deadline behind a response -/

section Deadline

variable {cfg : ServerConfig} {s : Server} {c : Nat}

/-- Unless a byte arrives first, a sweep that closes connection `c` comes more than
`keep_alive_timeout` after its response was completed. -/
def KeptAlive (cfg : ServerConfig) (s : Server) (c : Nat) : Prop :=
  ∀ k : Completion, (s.conn c).completed = some k → ∀ (d : ℚ) (s' : Server),
    (Server.lts cfg).exec s [.tick d, .sweep] = some s' → s'.sel.isOpen c = false →
      k.time + cfg.keepAliveTimeout < s'.now

/-- In every state of every run, while no loop runs: an open registered connection is left alone for
`keep_alive_timeout` after its response if and only if the loop has rolled over since, or the
deadline the response found was none, or late enough, or the time is over. -/
theorem keptAlive_iff (hreach : (Server.lts cfg).Reachable s) (hrest : s.running = none)
    (hopen : s.sel.isOpen c = true) (hregistered : s.registered c = true) :
    KeptAlive cfg s c ↔
      ∀ k : Completion, (s.conn c).completed = some k → k.rolled = true ∨
        ∀ a, k.deadline = some a →
          k.time + cfg.keepAliveTimeout ≤ a ∨ k.time + cfg.keepAliveTimeout < s.now := by
  have hi := Server.inv_of_reachable hreach
  have hkept := hi.kept c (hi.sel.lt_next hopen)
  constructor
  · intro h k hk
    cases hrolled : k.rolled with
    | true => exact .inl rfl
    | false =>
      refine .inr fun a ha => ?_
      by_contra hcon
      push Not at hcon
      -- the sweep at the moment the time is over
      have hrun : (Server.lts cfg).exec s
          [.tick (k.time + cfg.keepAliveTimeout - s.now), .sweep] =
            some (Server.cleanupStale { s with
              now := s.now + (k.time + cfg.keepAliveTimeout - s.now) }) :=
        (Server.exec_sweep hrest).2 ⟨by linarith [hcon.2], rfl⟩
      obtain ⟨-, hnow, hclosed, -⟩ := Server.swept hi hrest hopen hregistered hrun
      have hat := ((hkept.deadline k hk).2.2 hrolled).trans ha
      have hlate := h k hk _ _ hrun (hclosed.2 ⟨a, hat, by linarith [hcon.1]⟩)
      rw [hnow] at hlate
      linarith
  · intro h k hk d s' hrun hend
    obtain ⟨hd, hnow, hclosed, -⟩ := Server.swept hi hrest hopen hregistered hrun
    obtain ⟨a, ha, hlt⟩ := hclosed.1 hend
    rw [hnow]
    cases hrolled : k.rolled with
    | true =>
      -- the deadline is `keep_alive_timeout` behind the roll, which came after the response
      obtain ⟨u, hle, hat⟩ := (hkept.deadline k hk).2.1 hrolled
      cases ha.symm.trans hat
      linarith
    | false =>
      -- the deadline is still the one that the response found
      have hat := ((hkept.deadline k hk).2.2 hrolled).symm.trans ha
      rcases (h k hk).resolve_left (by simp [hrolled]) a hat with hle | hover
      · linarith
      · linarith

/-- A response completed inline, to a request that has arrived whole. -/
theorem keptAlive_of_inline (hreach : (Server.lts cfg).Reachable s) (hrest : s.running = none)
    (hopen : s.sel.isOpen c = true) (hregistered : s.registered c = true)
    (htracked : s.sel.tracked c = true)
    (hwhole : cfg.backend = .httptools → (s.conn c).bodyLeft = false)
    (hinline : ∀ k : Completion, (s.conn c).completed = some k → k.stayed = true) :
    KeptAlive cfg s c := by
  have hi := Server.inv_of_reachable hreach
  have hkept := hi.kept c (hi.sel.lt_next hopen)
  refine (keptAlive_iff hreach hrest hopen hregistered).2 fun k hk => .inl ?_
  rcases hkept.idle (Server.loopOf_none hrest c) htracked k hk (hinline k hk) with
    hrolled | ⟨hb, hleft⟩
  · exact hrolled
  · rw [hwhole hb] at hleft
    cases hleft

/-! ## Silent connections -/

/-- A sweep closes and unregisters connection `c` once its last activity is further back than both
timeouts.
-/
def SweptInTime (cfg : ServerConfig) (s : Server) (c : Nat) : Prop :=
  ∀ (d : ℚ) (s' : Server), (Server.lts cfg).exec s [.tick d, .sweep] = some s' →
    (s.conn c).lastActivity + max cfg.keepAliveTimeout cfg.rwTimeout < s'.now →
      s'.sel.isOpen c = false ∧ s'.registered c = false

/-- In every state of every run, while no loop runs: an open registered connection is closed in time
if and only if its loop has received a byte and, where it has rolled over since the last one, has
not done so too late. -/
theorem sweptInTime_iff (hreach : (Server.lts cfg).Reachable s) (hrest : s.running = none)
    (hopen : s.sel.isOpen c = true) (hregistered : s.registered c = true) :
    SweptInTime cfg s c ↔
      (s.conn c).fed = true ∧ ∀ u, (s.conn c).rolledAt = some u →
        u + cfg.keepAliveTimeout ≤
            (s.conn c).lastActivity + max cfg.keepAliveTimeout cfg.rwTimeout ∨
          u + cfg.keepAliveTimeout < s.now := by
  have hi := Server.inv_of_reachable hreach
  have hkept := hi.kept c (hi.sel.lt_next hopen)
  -- a sweep at any time to come
  have hsweep : ∀ t, s.now ≤ t → ∃ s',
      (Server.lts cfg).exec s [.tick (t - s.now), .sweep] = some s' ∧ s'.now = t ∧
        (s'.sel.isOpen c = false → ∃ a, (s.conn c).closeAt = some a ∧ a < t) := by
    intro t ht
    have hrun : (Server.lts cfg).exec s [.tick (t - s.now), .sweep] =
        some (Server.cleanupStale { s with now := s.now + (t - s.now) }) :=
      (Server.exec_sweep hrest).2 ⟨by linarith, rfl⟩
    obtain ⟨-, hnow, hclosed, -⟩ := Server.swept hi hrest hopen hregistered hrun
    have heq : s.now + (t - s.now) = t := add_sub_cancel _ _
    refine ⟨_, hrun, hnow.trans heq, fun h => ?_⟩
    rw [← heq]
    exact hclosed.1 h
  have hactive := hkept.activity
  have hmax : cfg.keepAliveTimeout ≤ max cfg.keepAliveTimeout cfg.rwTimeout := le_max_left _ _
  have hmax' : cfg.rwTimeout ≤ max cfg.keepAliveTimeout cfg.rwTimeout := le_max_right _ _
  have hpos := cfg.keepAlive_nonneg
  constructor
  · intro h
    have hfed : (s.conn c).fed = true := by
      -- a sweep late enough
      obtain ⟨s', hrun, hnow, hclosed⟩ :=
        hsweep (s.now + max cfg.keepAliveTimeout cfg.rwTimeout + 1) (by linarith)
      obtain ⟨a, ha, -⟩ := hclosed (h _ s' hrun (by linarith)).1
      by_contra hunfed
      rw [hkept.unfed (by simpa using hunfed)] at ha
      cases ha
    refine ⟨hfed, fun u hu => ?_⟩
    by_contra hcon
    push Not at hcon
    -- at the moment of the deadline the connection is left alone
    obtain ⟨s', hrun, hnow, hclosed⟩ := hsweep (u + cfg.keepAliveTimeout) hcon.2
    obtain ⟨a, ha, hlt⟩ := hclosed (h _ s' hrun (by linarith [hcon.1])).1
    cases ha.symm.trans (hkept.rolled hfed u hu).2
    exact absurd hlt (lt_irrefl _)
  · rintro ⟨hfed, hrolled⟩ d s' hrun hlong
    obtain ⟨hd, hnow, hclosed, hgone⟩ := Server.swept hi hrest hopen hregistered hrun
    have hend : s'.sel.isOpen c = false := by
      rw [hclosed, ← hnow]
      cases hat : (s.conn c).rolledAt with
      | none =>
        -- the deadline is `rw_timeout` behind a byte that came no later than the last activity
        obtain ⟨r, -, hle, ha⟩ := hkept.received hfed hat
        exact ⟨_, ha, by linarith⟩
      | some u =>
        refine ⟨_, (hkept.rolled hfed u hat).2, ?_⟩
        rcases hrolled u hat with hle | hover
        · linarith
        · linarith
    exact ⟨hend, hgone hend⟩

/-! ## The default timeouts -/

/-- The defaults of `ServerConfig`. -/
def defaults (backend : Backend) : ServerConfig where
  backend := backend
  rwTimeout := 1
  keepAliveTimeout := 15
  rw_nonneg := by decide
  keepAlive_nonneg := by decide

/-- What the runs below are asked about connection 0: the clock, whether no loop runs, whether the
connection is open and registered, and its record. -/
def view (s : Server) : ℚ × Bool × Bool × Bool × HTTPConn :=
  (s.now, s.running = none, s.sel.isOpen 0, s.registered 0, s.conn 0)

theorem reachable_of_exec {es : List Event}
    (h : (Server.lts cfg).exec (Server.start 1) es = some s) : (Server.lts cfg).Reachable s :=
  ⟨_, es, ⟨1, by decide, rfl⟩, h⟩

/-- A request is handled by a worker for two seconds; the connection is given back and tracked
again. -/
def borrowed : List Event :=
  [.accept 7 true, .readable 0, .receive, .request, .borrow, .handlerReturns, .returns, .tick 2,
    .finishes 0, .givesBack 0 false, .drain]

/-- The same request, handled inline in two seconds; the loop rolls over, and `recv` has nothing for
it. -/
def inline : List Event :=
  [.accept 7 true, .readable 0, .receive, .request, .tick 2, .finishes 0, .handlerReturns, .roll,
    .blocks]

theorem keptAlive_iff_inline :
    ∃ s, (Server.lts (defaults .h11)).exec (Server.start 1) inline = some s ∧
      (s.conn 0).completed = some ⟨3, some 2, true, true⟩ ∧ KeptAlive (defaults .h11) s 0 := by
  have hview : ((Server.lts (defaults .h11)).exec (Server.start 1) inline).map view =
      some (3, true, true, true,
        ⟨some 18, false, false, false, false, true, false, some 3, 3,
          some ⟨3, some 2, true, true⟩⟩) := by decide +kernel
  obtain ⟨s, hs, heq⟩ := Option.map_eq_some_iff.1 hview
  simp only [view, Prod.mk.injEq, decide_eq_true_eq] at heq
  obtain ⟨-, hrest, hopen, hregistered, hconn⟩ := heq
  refine ⟨s, hs, by rw [hconn], ?_⟩
  refine (keptAlive_iff (reachable_of_exec hs) hrest hopen hregistered).2 fun k hk => ?_
  rw [hconn] at hk
  cases hk
  exact .inl rfl

/-- The sweep half a second after the response of the worker closes the connection, though no byte
has arrived. -/
theorem closed_early :
    ∃ s s' : Server, (Server.lts (defaults .h11)).exec (Server.start 1) borrowed = some s ∧
      s.running = none ∧ s.sel.isOpen 0 = true ∧ s.registered 0 = true ∧
      (s.conn 0).completed = some ⟨3, some 2, false, false⟩ ∧
      (Server.lts (defaults .h11)).exec s [.tick (1 / 2), .sweep] = some s' ∧ s'.now = 7 / 2 ∧
      s'.sel.isOpen 0 = false ∧ ¬ KeptAlive (defaults .h11) s 0 := by
  have hview : ((Server.lts (defaults .h11)).exec (Server.start 1) borrowed).map view =
      some (3, true, true, true,
        ⟨some 2, true, true, false, false, true, false, none, 3,
          some ⟨3, some 2, false, false⟩⟩) := by decide +kernel
  have hview' : ((Server.lts (defaults .h11)).exec (Server.start 1)
      (borrowed ++ [.tick (1 / 2), .sweep])).map (fun s => (s.now, s.sel.isOpen 0)) =
        some (7 / 2, false) := by decide +kernel
  obtain ⟨s, hs, heq⟩ := Option.map_eq_some_iff.1 hview
  obtain ⟨s', hs', heq'⟩ := Option.map_eq_some_iff.1 hview'
  obtain ⟨u, hu, hrun⟩ := (Lts.exec_append _).1 hs'
  cases hs.symm.trans hu
  simp only [view, Prod.mk.injEq, decide_eq_true_eq] at heq heq'
  obtain ⟨-, hrest, hopen, hregistered, hconn⟩ := heq
  have hk : (s.conn 0).completed = some ⟨3, some 2, false, false⟩ := by rw [hconn]
  refine ⟨s, s', hs, hrest, hopen, hregistered, hk, hrun, heq'.1, heq'.2, fun h => ?_⟩
  have hlate := h _ hk _ s' hrun heq'.2
  rw [heq'.1] at hlate
  exact absurd hlate (by decide +kernel)

/-- A connection that sends the head of a request and nothing more. -/
def partway : List Event := [.accept 7 true, .readable 0, .receive, .blocks]

theorem sweptInTime_iff_partway :
    ∃ s, (Server.lts (defaults .h11)).exec (Server.start 1) partway = some s ∧
      SweptInTime (defaults .h11) s 0 := by
  have hview : ((Server.lts (defaults .h11)).exec (Server.start 1) partway).map view =
      some (1, true, true, true,
        ⟨some 2, false, false, false, false, true, false, none, 1, none⟩) := by decide +kernel
  obtain ⟨s, hs, heq⟩ := Option.map_eq_some_iff.1 hview
  simp only [view, Prod.mk.injEq, decide_eq_true_eq] at heq
  obtain ⟨-, hrest, hopen, hregistered, hconn⟩ := heq
  refine ⟨s, hs, (sweptInTime_iff (reachable_of_exec hs) hrest hopen hregistered).2 ?_⟩
  rw [hconn]
  exact ⟨rfl, fun u hu => by cases hu⟩

/-- A connection that never sends a byte: an hour later it is still open and registered. -/
theorem never_closed :
    ∃ s s' : Server, (Server.lts (defaults .h11)).exec (Server.start 1) [.accept 7 true] = some s ∧
      s.running = none ∧ s.sel.isOpen 0 = true ∧ s.registered 0 = true ∧
      (Server.lts (defaults .h11)).exec s [.tick 3600, .sweep] = some s' ∧
      (s.conn 0).lastActivity = 1 ∧ s'.now = 3601 ∧ s'.sel.isOpen 0 = true ∧
      s'.registered 0 = true ∧ ¬ SweptInTime (defaults .h11) s 0 := by
  -- the two states are evaluated by the parts of them that can be compared
  have hview : ((Server.lts (defaults .h11)).exec (Server.start 1) [.accept 7 true]).map view =
      some (1, true, true, true, .fresh 1) := by decide +kernel
  have hview' : ((Server.lts (defaults .h11)).exec (Server.start 1)
      ([.accept 7 true] ++ [.tick 3600, .sweep])).map view =
        some (3601, true, true, true, .fresh 1) := by decide +kernel
  obtain ⟨s, hs, heq⟩ := Option.map_eq_some_iff.1 hview
  obtain ⟨s', hs', heq'⟩ := Option.map_eq_some_iff.1 hview'
  obtain ⟨u, hu, hrun⟩ := (Lts.exec_append _).1 hs'
  cases hs.symm.trans hu
  simp only [view, Prod.mk.injEq, decide_eq_true_eq] at heq heq'
  obtain ⟨-, hrest, hopen, hregistered, hconn⟩ := heq
  obtain ⟨hnow, -, hopen', hregistered', -⟩ := heq'
  have hactive : (s.conn 0).lastActivity = 1 := by
    rw [hconn]
    rfl
  refine ⟨s, s', hs, hrest, hopen, hregistered, hrun, hactive, hnow, hopen', hregistered',
    -- the claim would have the connection closed by the sweep, and it is open
    fun h => ?_⟩
  have hclosed := (h _ s' hrun (by rw [hactive, hnow]; decide +kernel)).1
  rw [hopen'] at hclosed
  cases hclosed

end Deadline

end LocalPost.Http.Base.Deadlines
