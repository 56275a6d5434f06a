import LocalPost.Http.Base.Deadlines

/-!
# What holds of a connection and its deadline in every run

`Kept` is what holds of one connection, in terms of the clock, of where the loop of the connection
stands and of whether the selector tracks it; there is one lemma for each thing that can happen to a
connection. `Server.Inv` says it of all connections, and every step keeps it (`Server.step_inv`).
-/

set_option autoImplicit false

namespace LocalPost.Http.Base.Deadlines

open LocalPost.Core

/-! ## One connection -/

/-- What holds of a connection: what becomes of a completed response before and after the loop has
rolled over, that a request is dispatched only when bytes have arrived, and where the deadline comes
from. -/
structure Kept (cfg : ServerConfig) (now : ℚ) (loop : Option Point) (tracked : Bool)
    (conn : HTTPConn) : Prop where
  owed : ∀ k : Completion, conn.completed = some k → k.rolled = false →
    conn.pending cfg.backend = true ∨ (cfg.backend = .httptools ∧ conn.bodyLeft = true)
  dispatched : cfg.backend = .httptools → loop = some .handler ∨ conn.lent = true →
    conn.messageComplete = true ∨ conn.bodyLeft = true
  idle : loop = none → tracked = true → ∀ k : Completion, conn.completed = some k →
    k.stayed = true → k.rolled = true ∨ (cfg.backend = .httptools ∧ conn.bodyLeft = true)
  lent : conn.lent = true → tracked = false ∧
    ∀ k : Completion, conn.completed = some k → k.stayed = false
  deadline : ∀ k : Completion, conn.completed = some k → k.time ≤ now ∧
    (k.rolled = true → ∃ u : ℚ, k.time ≤ u ∧ conn.closeAt = some (u + cfg.keepAliveTimeout)) ∧
    (k.rolled = false → conn.closeAt = k.deadline)
  started : conn.pending cfg.backend = true ∨ conn.lent = true ∨ loop = some .handler ∨
    loop = some .feeding ∨ conn.messageComplete = true ∨ conn.bodyLeft = true → conn.fed = true
  rolled : conn.fed = true → ∀ u : ℚ, conn.rolledAt = some u →
    0 < u ∧ conn.closeAt = some (u + cfg.keepAliveTimeout)
  received : conn.fed = true → conn.rolledAt = none →
    ∃ r : ℚ, 0 < r ∧ r ≤ conn.lastActivity ∧ conn.closeAt = some (r + cfg.rwTimeout)
  unfed : conn.fed = false → conn.closeAt = none
  activity : conn.lastActivity ≤ now

namespace Kept

variable {cfg : ServerConfig} {now : ℚ} {loop : Option Point} {tracked : Bool} {conn : HTTPConn}

theorem fresh : Kept cfg now none tracked (.fresh now) where
  owed k hk := by cases hk
  dispatched _ h := by simp [HTTPConn.fresh] at h
  idle _ _ k hk := by cases hk
  lent h := by cases h
  deadline k hk := by cases hk
  started h := by cases hb : cfg.backend <;> simp [HTTPConn.fresh, HTTPConn.pending, hb] at h
  rolled h := by cases h
  received h := by cases h
  unfed _ := rfl
  activity := le_refl now

theorem tick (h : Kept cfg now loop tracked conn) {d : ℚ} (hd : 0 ≤ d) :
    Kept cfg (now + d) loop tracked conn where
  owed := h.owed
  dispatched := h.dispatched
  idle := h.idle
  lent := h.lent
  deadline k hk := ⟨by linarith [(h.deadline k hk).1], (h.deadline k hk).2⟩
  started := h.started
  rolled := h.rolled
  received := h.received
  unfed := h.unfed
  activity := by linarith [h.activity]

/-- The selector no longer tracks the connection, or does as before. -/
theorem untrack (h : Kept cfg now loop tracked conn) {tracked' : Bool}
    (hle : tracked' = true → tracked = true) : Kept cfg now loop tracked' conn where
  owed := h.owed
  dispatched := h.dispatched
  idle hloop htracked := h.idle hloop (hle htracked)
  lent hlent := by
    refine ⟨?_, (h.lent hlent).2⟩
    cases htracked : tracked' with
    | false => rfl
    | true => exact absurd ((h.lent hlent).1.symm.trans (hle htracked)) (by simp)
  deadline := h.deadline
  started := h.started
  rolled := h.rolled
  received := h.received
  unfed := h.unfed
  activity := h.activity

/-- The loop goes on at a place where no request is being dispatched. -/
theorem goto (h : Kept cfg now loop tracked conn) {loop' : Option Point}
    (hhandler : loop' ≠ some .handler) (hfeeding : loop' = some .feeding → conn.fed = true)
    (hidle : loop' = none → tracked = true → conn.pending cfg.backend = false) :
    Kept cfg now loop' tracked conn where
  owed := h.owed
  dispatched hb hcase := h.dispatched hb (.inr (hcase.resolve_left hhandler))
  idle hloop htracked k hk hstayed := by
    cases hrolled : k.rolled with
    | true => exact .inl rfl
    | false =>
      -- a connection that the loop has left is not pending, so the rest of a body is owed
      rcases h.owed k hk hrolled with hpending | hleft
      · rw [hidle hloop htracked] at hpending
        cases hpending
      · exact .inr hleft
  lent := h.lent
  deadline := h.deadline
  started hcase := by
    rcases hcase with hcase | hcase | hcase | hcase | hcase | hcase
    · exact h.started (.inl hcase)
    · exact h.started (.inr (.inl hcase))
    · exact absurd hcase hhandler
    · exact hfeeding hcase
    · exact h.started (.inr (.inr (.inr (.inr (.inl hcase)))))
    · exact h.started (.inr (.inr (.inr (.inr (.inr hcase)))))
  rolled := h.rolled
  received := h.received
  unfed := h.unfed
  activity := h.activity

/-- The roll-over keeps what holds of the connection, and starts the time of the next request. -/
theorem roll (h : Kept cfg now (some .head) true conn) (hnow : 0 < now)
    (hpending : conn.pending cfg.backend = true) :
    Kept cfg now (some .head) true (conn.roll cfg now) where
  owed k hk hrolled := by
    obtain ⟨k', -, rfl⟩ := Option.map_eq_some_iff.1 hk
    cases hrolled
  dispatched _ hcase := by
    -- no worker has a connection that is tracked
    have hlent : conn.lent = true := hcase.resolve_left (by simp)
    exact absurd (h.lent hlent).1 (by simp)
  idle hloop := by cases hloop
  lent hlent := absurd (h.lent hlent).1 (by simp)
  deadline k hk := by
    obtain ⟨k', hk', rfl⟩ := Option.map_eq_some_iff.1 hk
    have htime := (h.deadline k' hk').1
    exact ⟨htime, fun _ => ⟨now, htime, rfl⟩, fun hrolled => by cases hrolled⟩
  started _ := h.started (.inl hpending)
  rolled _ u hu := by
    cases hu
    exact ⟨hnow, rfl⟩
  received _ hnone := by cases hnone
  unfed hunfed := by
    rw [show (conn.roll cfg now).fed = conn.fed from rfl, h.started (.inl hpending)] at hunfed
    cases hunfed
  activity := h.activity

theorem receive (h : Kept cfg now (some .head) true conn) (hnow : 0 < now) {loop' : Option Point}
    (hloop : loop' = some .head ∨ loop' = some .feeding) :
    Kept cfg now loop' true (conn.receive cfg now) where
  owed k hk := by cases hk
  dispatched hb hcase := by
    have hlent : conn.lent = true := hcase.resolve_left (by rcases hloop with rfl | rfl <;> simp)
    exact absurd (h.lent hlent).1 (by simp)
  idle _ _ k hk := by cases hk
  lent hlent := absurd (h.lent hlent).1 (by simp)
  deadline k hk := by cases hk
  started _ := rfl
  rolled _ u hu := by cases hu
  received _ _ := ⟨now, hnow, le_refl now, rfl⟩
  unfed hunfed := by cases hunfed
  activity := le_refl now

/-- The head of a request has been parsed, and its handler is called. -/
theorem request (h : Kept cfg now loop tracked conn) (hfed : conn.fed = true) :
    Kept cfg now (some .handler) tracked (conn.request cfg.backend) := by
  cases hb : cfg.backend with
  | h11 =>
    have hh11 : ∀ {p : Prop}, cfg.backend = .httptools → p := by
      intro p hp
      rw [hb] at hp
      cases hp
    exact ⟨h.owed, fun hp => hh11 hp, fun hloop => (by cases hloop), h.lent, h.deadline,
      fun _ => hfed, h.rolled, h.received, h.unfed, h.activity⟩
  | httptools =>
    exact ⟨fun _ _ _ => .inr ⟨hb, rfl⟩, fun _ _ => .inr rfl, fun hloop => (by cases hloop), h.lent,
      h.deadline, fun _ => hfed, h.rolled, h.received, h.unfed, h.activity⟩

theorem onMessageComplete (h : Kept cfg now (some .feeding) tracked conn) :
    Kept cfg now (some .feeding) tracked conn.onMessageComplete where
  owed k hk hrolled := by
    cases hb : cfg.backend with
    | h11 =>
      rcases h.owed k hk hrolled with hpending | ⟨hhttptools, -⟩
      · rw [hb] at hpending
        exact .inl hpending
      · rw [hb] at hhttptools
        cases hhttptools
    | httptools => exact .inl rfl
  dispatched _ _ := .inl rfl
  idle hloop := by cases hloop
  lent := h.lent
  deadline := h.deadline
  started _ := h.started (.inr (.inr (.inr (.inl rfl))))
  rolled := h.rolled
  received := h.received
  unfed := h.unfed
  activity := h.activity

/-- A worker takes the connection of a request that has been dispatched. -/
theorem borrow (h : Kept cfg now loop true conn)
    (hloop : loop = some .handler ∨ (loop = some .feeding ∧
      (conn.messageComplete = true ∨ conn.bodyLeft = true))) :
    Kept cfg now loop false conn.borrow where
  -- to borrow changes the flag of the context only
  owed k hk hrolled := by
    obtain ⟨k', hk', rfl⟩ := Option.map_eq_some_iff.1 hk
    exact h.owed k' hk' hrolled
  dispatched hb _ := by
    -- the handler has been called, or the feed goes on with a request that came before
    rcases hloop with hhandler | ⟨-, hrequest⟩
    · exact h.dispatched hb (.inl hhandler)
    · exact hrequest
  idle _ htracked := by cases htracked
  lent _ := by
    refine ⟨rfl, fun k hk => ?_⟩
    obtain ⟨k', -, rfl⟩ := Option.map_eq_some_iff.1 hk
    rfl
  deadline k hk := by
    obtain ⟨k', hk', rfl⟩ := Option.map_eq_some_iff.1 hk
    exact h.deadline k' hk'
  started _ := by
    rcases hloop with hhandler | ⟨hfeeding, -⟩
    · exact h.started (.inr (.inr (.inl hhandler)))
    · exact h.started (.inr (.inr (.inr (.inl hfeeding))))
  rolled := h.rolled
  received := h.received
  unfed := h.unfed
  activity := h.activity

/-- Bytes that a handler or a worker has received. -/
theorem touched (h : Kept cfg now loop tracked conn) :
    Kept cfg now loop tracked { conn with lastActivity := now, completed := none } where
  owed k hk := by cases hk
  dispatched := h.dispatched
  idle _ _ k hk := by cases hk
  lent hlent := ⟨(h.lent hlent).1, fun k hk => by cases hk⟩
  deadline k hk := by cases hk
  started := h.started
  rolled := h.rolled
  received hfed hnone := by
    obtain ⟨r, hpos, hle, hat⟩ := h.received hfed hnone
    exact ⟨r, hpos, le_trans hle h.activity, hat⟩
  unfed := h.unfed
  activity := le_refl now

/-- The end of the body, read by a handler or a worker. -/
theorem readEnd (h : Kept cfg now loop tracked conn)
    (hreader : loop = some .handler ∨ conn.lent = true) (bytes : Bool) (hbytes : bytes = false) :
    Kept cfg now loop tracked (conn.reads cfg.backend now bytes true) := by
  subst hbytes
  have hfed : conn.fed = true := by
    rcases hreader with hhandler | hlent
    · exact h.started (.inr (.inr (.inl hhandler)))
    · exact h.started (.inr (.inl hlent))
  -- outside the loop it is a worker that reads, and its response has not stayed
  have hidle : loop = none → ∀ k : Completion, conn.completed = some k → k.stayed = true →
      False := by
    intro hloop k hk hstayed
    have hlent : conn.lent = true := hreader.resolve_left (by rw [hloop]; simp)
    rw [(h.lent hlent).2 k hk] at hstayed
    cases hstayed
  cases hb : cfg.backend with
  | h11 =>
    refine ⟨fun k hk hrolled => ?_, fun hp => ?_, fun hloop _ k hk hstayed =>
      (hidle hloop k hk hstayed).elim, h.lent, h.deadline, fun _ => hfed, h.rolled, h.received,
      h.unfed, h.activity⟩
    · rcases h.owed k hk hrolled with hpending | ⟨hhttptools, -⟩
      · rw [hb] at hpending ⊢
        simp only [HTTPConn.pending, Bool.and_eq_true] at hpending
        exact .inl (by simp [HTTPConn.reads, HTTPConn.pending, hpending.1])
      · rw [hb] at hhttptools
        cases hhttptools
    · rw [hb] at hp
      cases hp
  | httptools =>
    refine ⟨fun k hk hrolled => ?_, fun _ _ => .inl rfl, fun hloop _ k hk hstayed =>
      (hidle hloop k hk hstayed).elim, h.lent, h.deadline, fun _ => hfed, h.rolled, h.received,
      h.unfed, h.activity⟩
    rw [hb]
    exact .inl rfl

theorem reads (h : Kept cfg now loop tracked conn)
    (hreader : loop = some .handler ∨ conn.lent = true) (bytes complete : Bool) :
    Kept cfg now loop tracked (conn.reads cfg.backend now bytes complete) := by
  cases bytes with
  | false =>
    cases complete with
    | false => exact h
    | true => exact h.readEnd hreader false rfl
  | true =>
    cases complete with
    | false => exact h.touched
    | true => exact h.touched.readEnd hreader false rfl

theorem finishResponse (h : Kept cfg now loop tracked conn)
    (hholder : loop = some .handler ∨ conn.lent = true) {stayed : Bool}
    (hstayed : stayed = true → loop = some .handler ∧ tracked = true) :
    Kept cfg now loop tracked (conn.finishResponse cfg.backend now stayed) := by
  have hfed : conn.fed = true := by
    rcases hholder with hhandler | hlent
    · exact h.started (.inr (.inr (.inl hhandler)))
    · exact h.started (.inr (.inl hlent))
  -- a response that a worker completes has not stayed with the selector
  have hlent : conn.lent = true → tracked = false ∧ stayed = false := by
    intro hlent
    refine ⟨(h.lent hlent).1, ?_⟩
    cases hs : stayed with
    | false => rfl
    | true => exact absurd ((h.lent hlent).1.symm.trans (hstayed hs).2) (by simp)
  have hreceived : conn.fed = true → conn.rolledAt = none →
      ∃ r : ℚ, 0 < r ∧ r ≤ now ∧ conn.closeAt = some (r + cfg.rwTimeout) := by
    intro hf hnone
    obtain ⟨r, hpos, hle, hat⟩ := h.received hf hnone
    exact ⟨r, hpos, le_trans hle h.activity, hat⟩
  cases hb : cfg.backend with
  | h11 =>
    refine ⟨fun k hk _ => ?_, fun hp => ?_, fun hloop _ k hk hs => ?_, fun hl => ?_, fun k hk => ?_,
      fun _ => hfed, h.rolled, hreceived, h.unfed, le_refl now⟩
    · rw [hb]
      exact .inl rfl
    · rw [hb] at hp
      cases hp
    · cases hk
      rw [(hstayed hs).1] at hloop
      cases hloop
    · refine ⟨(hlent hl).1, fun k hk => ?_⟩
      cases hk
      exact (hlent hl).2
    · cases hk
      exact ⟨le_refl now, fun hrolled => (by cases hrolled), fun _ => rfl⟩
  | httptools =>
    have hrequest := h.dispatched hb hholder
    refine ⟨fun k hk _ => ?_, fun _ _ => hrequest, fun hloop _ k hk hs => ?_, fun hl => ?_,
      fun k hk => ?_, fun _ => hfed, h.rolled, hreceived, h.unfed, le_refl now⟩
    · rw [hb]
      exact hrequest.imp (fun hm => hm) fun hleft => ⟨rfl, hleft⟩
    · cases hk
      rw [(hstayed hs).1] at hloop
      cases hloop
    · refine ⟨(hlent hl).1, fun k hk => ?_⟩
      cases hk
      exact (hlent hl).2
    · cases hk
      exact ⟨le_refl now, fun hrolled => (by cases hrolled), fun _ => rfl⟩

theorem giveBack (h : Kept cfg now loop tracked conn) (hlent : conn.lent = true) (tracked' : Bool) :
    Kept cfg now loop tracked' { conn with lent := false } where
  owed := h.owed
  dispatched hb hcase := h.dispatched hb (.inr hlent)
  idle _ _ k hk hstayed := by
    rw [(h.lent hlent).2 k hk] at hstayed
    cases hstayed
  lent hl := by cases hl
  deadline := h.deadline
  started _ := h.started (.inr (.inl hlent))
  rolled := h.rolled
  received := h.received
  unfed := h.unfed
  activity := h.activity

end Kept

/-! ## The selector -/

section Tracked

variable {s s' : Selector} {c d : Nat}

/-- No connection is created, and none is tracked that was not. -/
def Untracks (s s' : Selector) : Prop :=
  s'.next = s.next ∧ ∀ c, s'.tracked c = true → s.tracked c = true

theorem Untracks.trans {s'' : Selector} (h : Untracks s s') (h' : Untracks s' s'') :
    Untracks s s'' := ⟨h'.1.trans h.1, fun c hc => h.2 c (h'.2 c hc)⟩

theorem Untracks.of_eq (hnext : s'.next = s.next) (hconns : s'.conns = s.conns) :
    Untracks s s' := by
  refine ⟨hnext, fun c hc => ?_⟩
  unfold Selector.tracked at hc ⊢
  rw [← hconns]
  exact hc

theorem untracks_setTracked (s : Selector) (c : Nat) : Untracks s (s.setTracked c false) := by
  refine ⟨rfl, fun d hd => ?_⟩
  rw [Selector.tracked_setTracked] at hd
  split at hd
  · cases hd
  · exact hd

theorem untracks_sockClose (s : Selector) (c : Nat) : Untracks s (s.sockClose c) :=
  ⟨Selector.next_sockClose s c, fun d hd => by rwa [Selector.tracked_sockClose] at hd⟩

theorem untracks_unregister (s : Selector) (fd : Nat) : Untracks s (s.unregister fd) :=
  .of_eq (Selector.next_unregister s fd) (Selector.conns_unregister s fd)

theorem untracks_applyTrack (hi : s.Inv) (c : Nat) : Untracks s (s.applyTrack c) := by
  obtain ⟨-, -, heq⟩ | ⟨key, -, -, heq⟩ | ⟨-, heq⟩ := Selector.applyTrack_cases hi c
  · rw [heq]
    exact .of_eq rfl rfl
  · rw [heq]
    exact .of_eq rfl rfl
  · rw [heq]
    exact untracks_setTracked s c

theorem untracks_stopTracking (s : Selector) (c : Nat) : Untracks s (s.stopTracking c) := by
  refine .trans ?_ (untracks_setTracked (s.unregisterSock c) c)
  unfold Selector.unregisterSock
  split
  · exact untracks_unregister s _
  · exact .of_eq rfl rfl

theorem untracks_closeHere (s : Selector) (c : Nat) : Untracks s (s.closeHere c) := by
  have hclosed := (untracks_setTracked s c).trans (untracks_sockClose (s.setTracked c false) c)
  unfold Selector.closeHere
  split
  · exact hclosed.trans (untracks_unregister _ _)
  · exact hclosed

theorem tracked_closeHere (s : Selector) (c : Nat) : (s.closeHere c).tracked c = false := by
  have hset : (s.setTracked c false).tracked c = false := by
    rw [Selector.tracked_setTracked, if_pos rfl]
  unfold Selector.closeHere
  split
  · rw [Selector.tracked_unregister, Selector.tracked_sockClose, hset]
  · rw [Selector.tracked_sockClose, hset]

theorem untracks_foldl {g : Selector → Nat → Selector} (hg : ∀ s c, Untracks s (g s c))
    (s : Selector) (cs : List Nat) : Untracks s (cs.foldl g s) := by
  induction cs generalizing s with
  | nil => exact .of_eq rfl rfl
  | cons c cs ih => exact (hg s c).trans (ih (g s c))

theorem untracks_cleanupStale (s : Selector) (late : List Nat) :
    Untracks s (s.cleanupStale late) :=
  (untracks_foldl untracks_stopTracking s _).trans (untracks_foldl untracks_sockClose _ _)

theorem untracks_drain (hi : s.Inv) (h : s.drain = some s') : Untracks s s' := by
  unfold Selector.drain at h
  split at h
  · cases h
  · rename_i c rest hops
    cases h
    have hpop : Selector.Inv { s with ops := rest } :=
      hi.of_eq rfl (fun _ => rfl) (fun _ => rfl) rfl rfl
    have hsame : Untracks s { s with ops := rest } := .of_eq rfl rfl
    exact hsame.trans (untracks_applyTrack hpop c)
  · rename_i fd rest hops
    cases h
    have hsame : Untracks s { s with ops := rest } := .of_eq rfl rfl
    exact hsame.trans (untracks_unregister _ fd)

/-- A close creates no connection and tracks none. -/
theorem untracks_close {a : Act} (ha : Event.isClose a = true) (h : s.step a = some s') :
    Untracks s s' := by
  cases a with
  | closeMark c =>
    obtain ⟨-, ⟨⟩⟩ := Option.ite_none_right_eq_some.1 h
    exact (untracks_setTracked s c).trans (.of_eq rfl rfl)
  | closeSock i =>
    obtain ⟨⟨c, wasTracked⟩, -, rfl⟩ := Option.map_eq_some_iff.1 h
    exact (untracks_sockClose s c).trans (.of_eq rfl rfl)
  | closePost i =>
    obtain ⟨fd, -, rfl⟩ := Option.map_eq_some_iff.1 h
    exact .of_eq rfl rfl
  | accept fd => cases ha
  | track c here => cases ha
  | postTrack c => cases ha
  | postClose fd => cases ha
  | stopTracking c => cases ha
  | closeHere c => cases ha
  | drain => cases ha
  | cleanupStale late => cases ha

/-- Tracking one connection leaves the others as they are, or fails and untracks that one. -/
theorem tracked_track (hi : s.Inv) {here : Bool} (hne : d ≠ c)
    (hd : (s.track c here).tracked d = true) : s.tracked d = true := by
  have hset : (s.setTracked c true).tracked d = true → s.tracked d = true := by
    intro h
    rw [Selector.tracked_setTracked, if_neg hne] at h
    exact h
  unfold Selector.track at hd
  split at hd
  · exact hd
  · split at hd
    · exact hset ((untracks_applyTrack (hi.setTracked c true) c).2 d hd)
    · exact hset hd

theorem next_track (hi : s.Inv) (c : Nat) (here : Bool) : (s.track c here).next = s.next := by
  unfold Selector.track
  split
  · rfl
  · split
    · exact (untracks_applyTrack (hi.setTracked c true) c).1
    · rfl

end Tracked

/-! ## The server -/

namespace Server

variable {cfg : ServerConfig} {s s' : Server}

/-- Where the loop of connection `c` stands; `none` when it does not run. -/
def loopOf (s : Server) (c : Nat) : Option Point :=
  match s.running with
  | some (d, point) => if d = c then some point else none
  | none => none

/-- The clock is ahead of zero, the selector keeps its invariant, the loop that runs is that of a
connection, and every connection keeps its own. -/
structure Inv (cfg : ServerConfig) (s : Server) : Prop where
  clock : 0 < s.now
  sel : s.sel.Inv
  bound : ∀ c point, s.running = some (c, point) → c < s.sel.next
  kept : ∀ c < s.sel.next, Kept cfg s.now (s.loopOf c) (s.sel.tracked c) (s.conn c)

theorem loopOf_self {c : Nat} {point : Point} (h : s.running = some (c, point)) :
    s.loopOf c = some point := by
  unfold loopOf
  rw [h]
  exact if_pos rfl

theorem loopOf_other {c d : Nat} {point : Point} (h : s.running = some (c, point)) (hne : d ≠ c) :
    s.loopOf d = none := by
  unfold loopOf
  rw [h]
  exact if_neg hne.symm

theorem loopOf_none (h : s.running = none) (c : Nat) : s.loopOf c = none := by
  unfold loopOf
  rw [h]

/-- A step that concerns connection `c` alone: the others are as before, but for being untracked. -/
theorem Inv.change (h : Inv cfg s) (c : Nat) (hclock : s'.now = s.now) (hsel : s'.sel.Inv)
    (hnext : s'.sel.next = s.sel.next)
    (hbound : ∀ d point, s'.running = some (d, point) → d < s.sel.next)
    (hconn : ∀ d, d ≠ c → s'.conn d = s.conn d)
    (htracked : ∀ d, d ≠ c → s'.sel.tracked d = true → s.sel.tracked d = true)
    (hloop : ∀ d, d ≠ c → s'.loopOf d = s.loopOf d)
    (hself : c < s.sel.next → Kept cfg s.now (s'.loopOf c) (s'.sel.tracked c) (s'.conn c)) :
    Inv cfg s' where
  clock := by
    rw [hclock]
    exact h.clock
  sel := hsel
  bound d point hrunning := by
    rw [hnext]
    exact hbound d point hrunning
  kept d hd := by
    rw [hnext] at hd
    rw [hclock]
    by_cases hdc : d = c
    · subst hdc
      exact hself hd
    · rw [hconn d hdc, hloop d hdc]
      exact (h.kept d hd).untrack (htracked d hdc)

@[simp] theorem conn_modify_self (c : Nat) (f : HTTPConn → HTTPConn) :
    (s.modify c f).conn c = f (s.conn c) := Function.update_self _ _ _

theorem conn_modify_of_ne {c d : Nat} (hne : d ≠ c) (f : HTTPConn → HTTPConn) :
    (s.modify c f).conn d = s.conn d := Function.update_of_ne hne _ _

/-- A step of the loop that runs: it goes on in the same connection, or ends. -/
theorem Inv.loopStep (h : Inv cfg s) {c : Nat} {point : Point}
    (hrunning : s.running = some (c, point)) (loop : Option Point) (conn : HTTPConn)
    (hclock : s'.now = s.now) (hsel : s'.sel.Inv) (huntracks : Untracks s.sel s'.sel)
    (hafter : s'.running = loop.map fun point' => (c, point'))
    (hconn : s'.conn = Function.update s.conn c conn)
    (hself : Kept cfg s.now (some point) (s.sel.tracked c) (s.conn c) →
      Kept cfg s.now loop (s'.sel.tracked c) conn) : Inv cfg s' := by
  -- Only connection `c` has changed, and the loop is with it before and behind the step.
  refine h.change c hclock hsel huntracks.1 ?_ ?_ (fun d _ => huntracks.2 d) ?_ ?_
  · intro d point' hd
    rw [hafter] at hd
    obtain ⟨_, -, heq⟩ := Option.map_eq_some_iff.1 hd
    have hc : c = d := congrArg Prod.fst heq
    rw [← hc]
    exact h.bound c point hrunning
  · intro d hne
    rw [hconn]
    exact Function.update_of_ne hne _ _
  · intro d hne
    rw [loopOf_other hrunning hne]
    cases loop with
    | none => exact loopOf_none hafter d
    | some point' => exact loopOf_other hafter hne
  -- for `c` itself the place in the loop is the new one
  · intro hlt
    have hkept := h.kept c hlt
    rw [loopOf_self hrunning] at hkept
    have hloop : s'.loopOf c = loop := by
      cases loop with
      | none => exact loopOf_none hafter c
      | some point' => exact loopOf_self hafter
    rw [hloop, hconn, Function.update_self]
    exact hself hkept

/-- A step of the loop that leaves the connection as it is. -/
theorem Inv.moveStep (h : Inv cfg s) {c : Nat} {point : Point}
    (hrunning : s.running = some (c, point)) (loop : Option Point)
    (hself : Kept cfg s.now (some point) (s.sel.tracked c) (s.conn c) →
      Kept cfg s.now loop (s.sel.tracked c) (s.conn c)) :
    Inv cfg { s with running := loop.map fun point' => (c, point') } :=
  h.loopStep hrunning loop (s.conn c) rfl h.sel (.of_eq rfl rfl) rfl
    (Function.update_eq_self c s.conn).symm hself

/-- A handler or a worker does something to its connection. -/
theorem Inv.holderStep (h : Inv cfg s) (c : Nat) (f : HTTPConn → HTTPConn)
    (hself : c < s.sel.next → Kept cfg s.now (s.loopOf c) (s.sel.tracked c) (f (s.conn c))) :
    Inv cfg (s.modify c f) := by
  refine h.change c rfl h.sel rfl (fun d point hd => h.bound d point hd)
    (fun d hne => conn_modify_of_ne hne f) (fun d _ hd => hd) (fun d _ => rfl) fun hlt => ?_
  rw [conn_modify_self]
  exact hself hlt

/-- A step that changes nothing but the selector. -/
theorem Inv.selStep (h : Inv cfg s) {sel : Selector} (hsel : sel.Inv)
    (huntracks : Untracks s.sel sel) : Inv cfg { s with sel := sel } where
  clock := h.clock
  sel := hsel
  bound d point hd := by
    rw [show ({ s with sel := sel } : Server).sel.next = s.sel.next from huntracks.1]
    exact h.bound d point hd
  kept d hd := (h.kept d (by rw [← huntracks.1]; exact hd)).untrack (huntracks.2 d)

theorem inHandler_iff {c : Nat} :
    s.inHandler c = true ↔ s.running = some (c, .handler) ∧ s.sel.tracked c = true := by
  unfold inHandler
  rw [Bool.and_eq_true, decide_eq_true_eq]

/-- Who reads the body or sends the response: the handler whose loop runs, or a worker. -/
theorem holder_cases {c : Nat} (h : s.inHandler c = true ∨ (s.conn c).lent = true) :
    s.loopOf c = some .handler ∨ (s.conn c).lent = true :=
  h.imp (fun hin => loopOf_self (inHandler_iff.1 hin).1) id

theorem Inv.tick (h : Inv cfg s) {d : ℚ} (hd : 0 ≤ d) : Inv cfg { s with now := s.now + d } where
  clock := by
    have := h.clock
    change 0 < s.now + d
    linarith
  sel := h.sel
  bound := h.bound
  kept c hc := (h.kept c hc).tick hd

/-- A new connection keeps the invariant, tracked at once or through the queue. -/
theorem Inv.accept (h : Inv cfg s) {fd : Nat} {here : Bool} {sel sel' : Selector}
    (haccept : s.sel.step (.accept fd) = some sel)
    (htrack : sel.step (if here then .track s.sel.next true else .postTrack s.sel.next) =
      some sel') :
    Inv cfg { s with
      sel := sel', conn := Function.update s.conn s.sel.next (.fresh s.now) } := by
  have hi := Selector.step_inv h.sel haccept
  obtain ⟨-, hsel⟩ := Option.ite_none_right_eq_some.1 haccept
  have hnext : sel.next = s.sel.next + 1 := by
    rw [← Option.some.inj hsel]
  have hold : ∀ d, d ≠ s.sel.next → sel.tracked d = true → s.sel.tracked d = true := by
    intro d hne hd
    rw [← Option.some.inj hsel] at hd
    simp only [Selector.tracked, Function.update_of_ne hne] at hd
    exact hd
  -- Tracking the new connection, at once or through the queue, concerns it alone.
  have htracked : sel'.next = sel.next ∧
      ∀ d, d ≠ s.sel.next → sel'.tracked d = true → sel.tracked d = true := by
    cases here with
    | true =>
      obtain ⟨-, heq⟩ := Option.ite_none_right_eq_some.1 htrack
      rw [← Option.some.inj heq]
      exact ⟨next_track hi _ _, fun d hne hd => tracked_track hi hne hd⟩
    | false =>
      obtain ⟨-, heq⟩ := Option.ite_none_right_eq_some.1 htrack
      rw [← Option.some.inj heq]
      refine ⟨rfl, fun d hne hd => ?_⟩
      have hset : (sel.setTracked s.sel.next true).tracked d = true := hd
      rw [Selector.tracked_setTracked, if_neg hne] at hset
      exact hset
  refine ⟨h.clock, Selector.step_inv hi htrack, fun d point hd => ?_, fun d hd => ?_⟩
  · have hlt := h.bound d point hd
    have hnext' : sel'.next = s.sel.next + 1 := htracked.1.trans hnext
    change d < sel'.next
    omega
  · by_cases hne : d = s.sel.next
    · -- the new connection: no loop is its own
      have hloop : s.loopOf d = none := by
        cases hrunning : s.running with
        | none => exact loopOf_none hrunning d
        | some place =>
          have hlt := h.bound place.1 place.2 hrunning
          exact loopOf_other hrunning (by omega)
      have hconn : Function.update s.conn s.sel.next (HTTPConn.fresh s.now) d = .fresh s.now := by
        rw [hne]
        exact Function.update_self _ _ _
      change Kept cfg s.now (s.loopOf d) (sel'.tracked d)
        (Function.update s.conn s.sel.next (HTTPConn.fresh s.now) d)
      rw [hloop, hconn]
      exact .fresh
    · have hlt : d < s.sel.next := by
        have hnext' : sel'.next = s.sel.next + 1 := htracked.1.trans hnext
        have hd' : d < sel'.next := hd
        omega
      change Kept cfg s.now (s.loopOf d) (sel'.tracked d)
        (Function.update s.conn s.sel.next (HTTPConn.fresh s.now) d)
      rw [Function.update_of_ne hne]
      exact (h.kept d hlt).untrack fun hd' => hold d hne (htracked.2 d hne hd')

/-- A connection that is given back keeps the invariant, tracked at once or through the queue. -/
theorem Inv.givesBack (h : Inv cfg s) {c : Nat} {here : Bool} {sel : Selector}
    (hlent : (s.conn c).lent = true) (htrack : s.sel.step (.track c here) = some sel) :
    Inv cfg { s.modify c (fun conn => { conn with lent := false }) with sel := sel } := by
  have hi := Selector.step_inv h.sel htrack
  obtain ⟨-, ⟨⟩⟩ := Option.ite_none_right_eq_some.1 htrack
  refine h.change c rfl hi (next_track h.sel c here) (fun d point hd => h.bound d point hd)
    (fun d hne => Function.update_of_ne hne _ _) (fun d hne hd => tracked_track h.sel hne hd)
    (fun d _ => rfl) fun hlt => ?_
  have hconn : (s.modify c fun conn => { conn with lent := false }).conn c =
      { s.conn c with lent := false } := Function.update_self _ _ _
  have hkept := (h.kept c hlt).giveBack hlent ((s.sel.track c here).tracked c)
  rw [← hconn] at hkept
  exact hkept

/-- The selector calls a connection that it knows. -/
theorem Inv.readable (h : Inv cfg s) {c : Nat} (hnone : s.running = none)
    (hopen : s.sel.isOpen c = true) : Inv cfg { s with running := some (c, .head) } := by
  have hlt : c < s.sel.next := h.sel.lt_next hopen
  refine h.change c rfl h.sel rfl (fun d point hd => ?_) (fun _ _ => rfl) (fun _ _ hd => hd)
    (fun d hne => ?_) fun _ => ?_
  · cases hd
    exact hlt
  · rw [loopOf_none hnone]
    exact loopOf_other rfl hne
  · rw [loopOf_self rfl]
    exact (h.kept c hlt).goto (by simp) (by simp) (by simp)

/-- A worker takes the connection whose loop runs, in the handler or behind `feed_data`. -/
theorem Inv.borrow (h : Inv cfg s) {c : Nat} {point : Point}
    (hrunning : s.running = some (c, point))
    (hhead : point ≠ .head) (htracked : s.sel.tracked c = true)
    (hrequest : point = .handler ∨ (s.conn c).messageComplete = true ∨ (s.conn c).bodyLeft = true) :
    Inv cfg { s.modify c .borrow with sel := s.sel.stopTracking c } := by
  refine h.loopStep hrunning (some point) _ rfl (h.sel.stopTracking c)
    (untracks_stopTracking s.sel c) hrunning rfl fun hkept => ?_
  rw [htracked] at hkept
  change Kept cfg s.now _ ((s.sel.stopTracking c).tracked c) _
  rw [Selector.stopTracking, Selector.tracked_setTracked, if_pos rfl]
  refine hkept.borrow ?_
  cases point with
  | head => exact (hhead rfl).elim
  | feeding => exact .inr ⟨rfl, hrequest.resolve_left (by simp)⟩
  | handler => exact .inl rfl

/-- On h11 a connection that still owes the rest of its request is closed behind the handler. -/
theorem Inv.closesBehindHandler (h : Inv cfg s) {c : Nat}
    (hrunning : s.running = some (c, .handler)) :
    Inv cfg { s with sel := s.sel.closeHere c, running := none } := by
  refine h.loopStep hrunning none (s.conn c) rfl (h.sel.closeHere c)
    (untracks_closeHere s.sel c) rfl (Function.update_eq_self c s.conn).symm fun hkept => ?_
  refine (hkept.untrack ((untracks_closeHere s.sel c).2 c)).goto (by simp) (by simp) ?_
  intro _ htracked
  rw [tracked_closeHere] at htracked
  cases htracked

/-- Every step keeps the invariant. -/
theorem step_inv {e : Event} (h : Inv cfg s) (hstep : s.step cfg e = some s') : Inv cfg s' := by
  cases e with
  | tick d =>
    obtain ⟨hd, ⟨⟩⟩ := Option.ite_none_right_eq_some.1 hstep
    exact h.tick hd
  | accept fd here =>
    obtain ⟨-, hbind⟩ := Option.ite_none_left_eq_some.1 hstep
    obtain ⟨sel, haccept, hmap⟩ := Option.bind_eq_some_iff.1 hbind
    obtain ⟨sel', htrack, rfl⟩ := Option.map_eq_some_iff.1 hmap
    exact h.accept haccept htrack
  | drain =>
    obtain ⟨-, hmap⟩ := Option.ite_none_left_eq_some.1 hstep
    obtain ⟨sel, hdrain, rfl⟩ := Option.map_eq_some_iff.1 hmap
    exact h.selStep (Selector.step_inv h.sel hdrain) (untracks_drain h.sel hdrain)
  | sweep =>
    obtain ⟨-, ⟨⟩⟩ := Option.ite_none_left_eq_some.1 hstep
    exact h.selStep (Selector.step_inv (a := .cleanupStale _) h.sel rfl)
      (untracks_cleanupStale s.sel _)
  | readable c =>
    obtain ⟨⟨hnone, -, hopen⟩, ⟨⟩⟩ := Option.ite_none_right_eq_some.1 hstep
    exact h.readable hnone hopen
  | roll =>
    simp only [step] at hstep
    split at hstep
    · rename_i c hrunning
      obtain ⟨⟨htracked, hpending⟩, ⟨⟩⟩ := Option.ite_none_right_eq_some.1 hstep
      refine h.loopStep hrunning (some .head) _ rfl h.sel (.of_eq rfl rfl) hrunning rfl
        fun hkept => ?_
      rw [htracked] at hkept
      change Kept cfg s.now _ (s.sel.tracked c) _
      rw [htracked]
      exact hkept.roll h.clock hpending
    · cases hstep
  | receive =>
    simp only [step] at hstep
    split at hstep
    · rename_i c hrunning
      obtain ⟨⟨htracked, -⟩, ⟨⟩⟩ := Option.ite_none_right_eq_some.1 hstep
      refine h.loopStep hrunning (some _) _ rfl h.sel (.of_eq rfl rfl) rfl rfl fun hkept => ?_
      rw [htracked] at hkept
      change Kept cfg s.now _ (s.sel.tracked c) _
      rw [htracked]
      refine hkept.receive h.clock ?_
      -- httptools goes on inside `feed_data`, h11 at the head
      split
      · exact .inr rfl
      · exact .inl rfl
    · cases hstep
  | request =>
    simp only [step] at hstep
    split at hstep
    · rename_i c hrunning hb
      obtain ⟨⟨-, -, hfed⟩, ⟨⟩⟩ := Option.ite_none_right_eq_some.1 hstep
      refine h.loopStep hrunning (some .handler) _ rfl h.sel (.of_eq rfl rfl) rfl rfl
        fun hkept => ?_
      rw [← hb]
      exact hkept.request hfed
    · rename_i c hrunning hb
      cases hstep
      refine h.loopStep hrunning (some .handler) _ rfl h.sel (.of_eq rfl rfl) rfl rfl
        fun hkept => ?_
      rw [← hb]
      exact hkept.request (hkept.started (.inr (.inr (.inr (.inl rfl)))))
    · cases hstep
  | messageComplete =>
    simp only [step] at hstep
    split at hstep
    · rename_i c hrunning
      cases hstep
      exact h.loopStep hrunning (some .feeding) _ rfl h.sel (.of_eq rfl rfl) hrunning rfl
        fun hkept => hkept.onMessageComplete
    · cases hstep
  | feedEnds =>
    simp only [step] at hstep
    split at hstep
    · rename_i c hrunning
      cases hstep
      exact h.moveStep hrunning (some .head) fun hkept =>
        hkept.goto (by simp) (by simp) (by simp)
    · cases hstep
  | borrow =>
    simp only [step] at hstep
    split at hstep
    · cases hstep
    · cases hstep
    · rename_i c point hhead hrunning
      obtain ⟨⟨htracked, hrequest⟩, hmap⟩ := Option.ite_none_right_eq_some.1 hstep
      obtain ⟨sel, hstop, rfl⟩ := Option.map_eq_some_iff.1 hmap
      obtain ⟨-, ⟨⟩⟩ := Option.ite_none_right_eq_some.1 hstop
      exact h.borrow hrunning (fun hpoint => hhead hpoint) htracked hrequest
  | handlerReturns =>
    simp only [step] at hstep
    split at hstep
    · rename_i c hrunning hb
      split at hstep
      · obtain ⟨sel, hclose, rfl⟩ := Option.map_eq_some_iff.1 hstep
        obtain ⟨-, ⟨⟩⟩ := Option.ite_none_right_eq_some.1 hclose
        exact h.closesBehindHandler hrunning
      · cases hstep
        exact h.moveStep hrunning (some .head) fun hkept =>
          hkept.goto (by simp) (by simp) (by simp)
    · -- httptools: the handler was called inside `feed_data`
      rename_i c hrunning hb
      cases hstep
      refine h.moveStep hrunning (some .feeding) fun hkept => ?_
      have hfed := hkept.started (.inr (.inr (.inl rfl)))
      exact hkept.goto (by simp) (fun _ => hfed) (by simp)
    · cases hstep
  | returns =>
    simp only [step] at hstep
    split at hstep
    · rename_i c hrunning
      obtain ⟨htracked, ⟨⟩⟩ := Option.ite_none_left_eq_some.1 hstep
      exact h.moveStep hrunning none fun hkept =>
        hkept.goto (by simp) (by simp) fun _ htrue => absurd htrue htracked
    · cases hstep
  | blocks =>
    simp only [step] at hstep
    split at hstep
    · rename_i c hrunning
      obtain ⟨⟨-, hpending⟩, ⟨⟩⟩ := Option.ite_none_right_eq_some.1 hstep
      exact h.moveStep hrunning none fun hkept =>
        hkept.goto (by simp) (by simp) fun _ _ => by simpa using hpending
    · cases hstep
  | closes =>
    simp only [step] at hstep
    split at hstep
    · rename_i c point hrunning
      obtain ⟨sel, hclose, rfl⟩ := Option.map_eq_some_iff.1 hstep
      obtain ⟨-, ⟨⟩⟩ := Option.ite_none_right_eq_some.1 hclose
      exact h.selStep (h.sel.closeHere c) (untracks_closeHere s.sel c)
    · cases hstep
  | reads c bytes complete =>
    obtain ⟨hholder, ⟨⟩⟩ := Option.ite_none_right_eq_some.1 hstep
    exact h.holderStep c _ fun hlt => (h.kept c hlt).reads (holder_cases hholder) bytes complete
  | finishes c =>
    obtain ⟨hholder, ⟨⟩⟩ := Option.ite_none_right_eq_some.1 hstep
    refine h.holderStep c _ fun hlt =>
      (h.kept c hlt).finishResponse (holder_cases hholder) fun hin => ?_
    exact ⟨loopOf_self (inHandler_iff.1 hin).1, (inHandler_iff.1 hin).2⟩
  | givesBack c here =>
    obtain ⟨hlent, hmap⟩ := Option.ite_none_right_eq_some.1 hstep
    obtain ⟨sel, htrack, rfl⟩ := Option.map_eq_some_iff.1 hmap
    exact h.givesBack hlent htrack
  | selector a =>
    obtain ⟨ha, hmap⟩ := Option.ite_none_right_eq_some.1 hstep
    obtain ⟨sel, hclose, rfl⟩ := Option.map_eq_some_iff.1 hmap
    exact h.selStep (Selector.step_inv h.sel hclose) (untracks_close ha hclose)

end Server

end LocalPost.Http.Base.Deadlines
