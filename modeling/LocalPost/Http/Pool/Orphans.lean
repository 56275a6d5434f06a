import LocalPost.Http.Pool.Run

/-!
# Orphaned connections

`NoOrphan` says that every open connection is with the selector or held by a request that is not
over. The connection leaves the selector before the task is submitted and comes back only when a
response is finished. A handler that returns, or raises past every clause, with the response
unfinished and no cancellation fired leaves its connection to nobody (`returned_without_response`),
and so does a submission that fails after the httptools parser's feed
(`submission_failed_after_feed`): h11 answers that one with a 500. `Attended` is the condition on a
step, and a run is free of orphans exactly when all its steps meet it (`no_orphans`).
-/

set_option autoImplicit false

namespace LocalPost.Http.Pool

open LocalPost.Core

namespace Server

/-- A request that is not over holds connection `c`. -/
def Held (s : Server) (c : Nat) : Prop := ∃ j < s.reqs.length, s.OwnsAt c j

/-- A request other than `i` holds connection `c`. -/
def HeldBesides (s : Server) (c i : Nat) : Prop := ∃ j < s.reqs.length, j ≠ i ∧ s.OwnsAt c j

/-- Connection `c` is not open, or the selector has it, or a request holds it. -/
def Kept (s : Server) (c : Nat) : Prop :=
  ∀ k ∈ s.conns[c]?, k.isOpen = true → k.tracked = true ∨ s.Held c

/-- No connection is open and unowned. -/
def NoOrphan (s : Server) : Prop := ∀ c, s.Kept c

/-- The condition on a step. A submission that fails is h11's, or another request holds the
connection. A request that ends has given its connection back or never held it, or is cancelled, or
its connection is closed, with the selector or held by another request. -/
def Attended (b : Backend) (s : Server) : Act → Prop
  | .dispatch c out _ => b = .h11 ∨ out = .accepted ∨ s.Held c
  | .pipelined i out => out = .accepted ∨ ∀ r ∈ s.reqs[i]?, s.Held r.conn
  | .cleanup i => ∀ r ∈ s.reqs[i]?,
      r.gaveBack = true ∨ r.accepted = false ∨ s.fired r = true ∨ s.HeldBesides r.conn i ∨
        ∀ k ∈ s.conns[r.conn]?, k.isOpen = true → k.tracked = true
  | _ => True

instance (s : Server) (c j : Nat) : Decidable (s.OwnsAt c j) :=
  decidable_of_iff (∃ r ∈ s.reqs[j]?, r.Owns c) (by simp only [OwnsAt, Option.mem_def])

instance (s : Server) (c : Nat) : Decidable (s.Held c) :=
  inferInstanceAs (Decidable (∃ j < _, _))

instance (s : Server) (c i : Nat) : Decidable (s.HeldBesides c i) :=
  inferInstanceAs (Decidable (∃ j < _, _))

instance (s : Server) (c : Nat) : Decidable (s.Kept c) :=
  inferInstanceAs (Decidable (∀ k ∈ _, _))

instance (b : Backend) (s : Server) : ∀ a, Decidable (s.Attended b a)
  | .accept _ => .isTrue trivial
  | .call _ => .isTrue trivial
  | .leave => .isTrue trivial
  | .applyTrack _ => .isTrue trivial
  | .sweep _ => .isTrue trivial
  | .stop => .isTrue trivial
  | .discard _ => .isTrue trivial
  | .dispatch _ _ _ => inferInstanceAs (Decidable (_ ∨ _ ∨ _))
  | .selectorClose _ => .isTrue trivial
  | .shutdown => .isTrue trivial
  | .signal _ => .isTrue trivial
  | .io _ => .isTrue trivial
  | .pipelined _ _ => inferInstanceAs (Decidable (_ ∨ ∀ r ∈ _, _))
  | .startResponse _ _ => .isTrue trivial
  | .finishResponse _ _ => .isTrue trivial
  | .raises _ _ => .isTrue trivial
  | .returns _ => .isTrue trivial
  | .recover _ => .isTrue trivial
  | .emitFails _ => .isTrue trivial
  | .cleanup _ => inferInstanceAs (Decidable (∀ r ∈ _, _))

variable {b : Backend} {s s' : Server} {c i j : Nat} {r : Req}

theorem held_iff : s.Held c ↔ ∃ j, s.OwnsAt c j := by
  constructor
  · rintro ⟨j, -, hj⟩
    exact ⟨j, hj⟩
  · rintro ⟨j, hj⟩
    obtain ⟨r, hr, -⟩ := id hj
    exact ⟨j, (List.getElem?_eq_some_iff.1 hr).1, hj⟩

theorem heldBesides_iff : s.HeldBesides c i ↔ ∃ j, j ≠ i ∧ s.OwnsAt c j := by
  constructor
  · rintro ⟨j, -, hj⟩
    exact ⟨j, hj⟩
  · rintro ⟨j, hne, hj⟩
    obtain ⟨r, hr, -⟩ := id hj
    exact ⟨j, (List.getElem?_eq_some_iff.1 hr).1, hne, hj⟩

theorem Held.of_eq {t : Server} {d : Nat} (h : ∀ j, t.OwnsAt d j ↔ s.OwnsAt d j) :
    t.Held d ↔ s.Held d := by
  rw [held_iff, held_iff]
  exact exists_congr h

namespace NoOrphan

theorem start : NoOrphan Server.start := fun c k hk _ => by simp [Server.start] at hk

/-- After a step that concerns connection `c` only, the question is what became of `c`. -/
theorem iff_kept (hs : s.NoOrphan) {t : Server}
    (hconns : ∀ d, d ≠ c → t.conns[d]? = s.conns[d]?)
    (howns : ∀ d, d ≠ c → ∀ j, t.OwnsAt d j ↔ s.OwnsAt d j) : t.NoOrphan ↔ t.Kept c := by
  constructor
  · exact fun h => h c
  · intro hc d
    by_cases hd : d = c
    · subst hd
      exact hc
    · intro k hk hopen
      rw [hconns d hd] at hk
      rw [Held.of_eq (howns d hd)]
      exact hs d k hk hopen

/-- A request and its connection change. -/
theorem change (hs : s.NoOrphan) (hr : s.reqs[i]? = some r) {f : Req → Req} (g : Conn → Conn)
    (hconn : (f r).conn = r.conn) :
    (s.modifyBoth i f r.conn g).NoOrphan ↔ (s.modifyBoth i f r.conn g).Kept r.conn := by
  refine hs.iff_kept (fun d hd => ?_) (fun d hd j => ?_)
  · exact List.getElem?_modify_ne g _ (Ne.symm hd)
  · rw [ownsAt_modifyBoth hr]
    split
    · rename_i hj
      subst hj
      constructor
      · exact fun h => absurd (h.1.symm.trans hconn) hd
      · rintro ⟨q, hq, h⟩
        cases hr.symm.trans hq
        exact absurd h.1.symm hd
    · exact Iff.rfl

/-- The step closes the connection or tracks it. -/
theorem settle (hs : s.NoOrphan) (hr : s.reqs[i]? = some r) {f : Req → Req} {g : Conn → Conn}
    (hconn : (f r).conn = r.conn) (hg : ∀ k, (g k).isOpen = true → (g k).tracked = true) :
    (s.modifyBoth i f r.conn g).NoOrphan := by
  rw [hs.change hr g hconn]
  intro k hk hopen
  obtain ⟨k₀, -, rfl⟩ := getElem?_modify_iff.1 hk
  rw [if_pos rfl] at hopen ⊢
  exact .inl (hg k₀ hopen)

/-- The step leaves the connection alone and the request stays an owner or not. -/
theorem stay (hs : s.NoOrphan) (hr : s.reqs[i]? = some r) {f : Req → Req}
    (hconn : (f r).conn = r.conn) (hown : (f r).Owns r.conn ↔ r.Owns r.conn) :
    (s.modifyReq i f).NoOrphan := by
  rw [modifyReq_eq s i f r.conn, hs.change hr id hconn]
  intro k hk hopen
  have hsame : ∀ j, (s.modifyBoth i f r.conn id).OwnsAt r.conn j ↔ s.OwnsAt r.conn j := by
    intro j
    rw [ownsAt_modifyBoth hr]
    split
    · rename_i hj
      subst hj
      rw [hown]
      constructor
      · exact fun h => ⟨r, hr, h⟩
      · rintro ⟨q, hq, h⟩
        cases hr.symm.trans hq
        exact h
    · exact Iff.rfl
  rw [Held.of_eq hsame]
  rw [modifyBoth, List.modify_id] at hk
  exact hs r.conn k hk hopen

/-- A new connection is with the selector. -/
theorem accept (hs : s.NoOrphan) (here : Bool) :
    NoOrphan { s with conns := s.conns ++ [Conn.accepted here] } := by
  intro c k hk hopen
  rcases getElem?_concat_iff.1 hk with hk | ⟨-, rfl⟩
  · exact hs c k hk hopen
  · exact .inl rfl

/-- The selector closes a connection, or leaves open what it found open and with whom it was. -/
theorem selector (hs : s.NoOrphan) {g : Conn → Conn}
    (hg : ∀ k, (g k).isOpen = true → k.isOpen = true ∧ (g k).tracked = k.tracked) :
    NoOrphan { s with conns := s.conns.modify c g } := by
  intro d k hk hopen
  obtain ⟨k₀, hk₀, rfl⟩ := getElem?_modify_iff.1 hk
  split at hopen
  · rename_i hd
    obtain ⟨hopen₀, htracked⟩ := hg k₀ hopen
    rw [if_pos hd, htracked]
    exact hs d k₀ hk₀ hopen₀
  · rename_i hd
    rw [if_neg hd]
    exact hs d k₀ hk₀ hopen

/-- A submission for connection `c`, whose requests are `new` with it: the connection ends up closed
or tracked, or an accepted request holds it, or an earlier one does. -/
theorem submit (hs : s.NoOrphan) {g : Conn → Conn} {reqs new : List Req} {k : Conn}
    (hk : s.conns[c]? = some k) (hreqs : reqs.length = s.reqs.length)
    (hsame : ∀ d j, OwnsAt { s with reqs := reqs } d j ↔ s.OwnsAt d j)
    (hnew : ∀ d, d ≠ c → ∀ q ∈ new, ¬q.Owns d) :
    NoOrphan { s with conns := s.conns.modify c g, reqs := reqs ++ new } ↔
      ((g k).isOpen = true → (g k).tracked = true ∨ s.Held c ∨ ∃ q ∈ new, q.Owns c) := by
  -- Who owns a connection: a request from before, or one of the new ones.
  have howns : ∀ d j, OwnsAt { s with conns := s.conns.modify c g, reqs := reqs ++ new } d j ↔
      s.OwnsAt d j ∨ s.reqs.length ≤ j ∧ ∃ q, new[j - s.reqs.length]? = some q ∧ q.Owns d := by
    intro d j
    rw [← hsame d j, ← hreqs]
    unfold OwnsAt
    by_cases hj : j < reqs.length
    · simp only [List.getElem?_append_left hj, Nat.not_le_of_lt hj, false_and, or_false]
    · have hj' := Nat.le_of_not_lt hj
      simp only [List.getElem?_append_right hj', hj', true_and, List.getElem?_eq_none hj']
      simp
  have hheld : Held { s with conns := s.conns.modify c g, reqs := reqs ++ new } c ↔
      s.Held c ∨ ∃ q ∈ new, q.Owns c := by
    rw [held_iff, held_iff]
    simp only [howns]
    constructor
    · rintro ⟨j, hj | ⟨-, q, hq, hown⟩⟩
      · exact .inl ⟨j, hj⟩
      · exact .inr ⟨q, List.mem_of_getElem? hq, hown⟩
    · rintro (⟨j, hj⟩ | ⟨q, hq, hown⟩)
      · exact ⟨j, .inl hj⟩
      · obtain ⟨m, hm⟩ := List.mem_iff_getElem?.1 hq
        refine ⟨s.reqs.length + m, .inr ⟨Nat.le_add_right _ _, q, ?_, hown⟩⟩
        rwa [Nat.add_sub_cancel_left]
  have hat : (s.conns.modify c g)[c]? = some (g k) := getElem?_modify_iff.2 ⟨k, hk, if_pos rfl⟩
  -- Only connection `c` can have lost its owner.
  rw [hs.iff_kept (c := c)]
  · unfold Kept
    rw [hheld]
    constructor
    · exact fun h hopen => h (g k) hat hopen
    · intro h k' hk' hopen
      cases hat.symm.trans hk'
      exact h hopen
  · exact fun d hd => List.getElem?_modify_ne g _ (Ne.symm hd)
  · intro d hd j
    rw [howns d j]
    constructor
    · rintro (h | ⟨-, q, hq, hown⟩)
      · exact h
      · exact absurd hown (hnew d hd q (List.mem_of_getElem? hq))
    · exact .inl

end NoOrphan

/-- A submission's request is for its connection only, and holds it when it was accepted. -/
theorem submitted_owns {out : Submit} {d : Nat} :
    (∃ q ∈ submitted b out c, q.Owns d) ↔ c = d ∧ out = .accepted := by
  cases out with
  | accepted => simp [submitted, Req.Owns]
  | refused => simp [submitted]
  | queued => simp [submitted, Req.Owns]

namespace NoOrphan

/-- A dispatch leaves no orphan exactly if the backend is h11, the pool takes the request, or
another one holds the connection. -/
theorem dispatch (hs : s.NoOrphan) {out : Submit} {keeps : Bool}
    (h : s.dispatch b c out keeps = some s') :
    s'.NoOrphan ↔ b = .h11 ∨ out = .accepted ∨ s.Held c := by
  obtain ⟨hloop, ⟨⟩⟩ := Option.ite_none_right_eq_some.1 h
  obtain ⟨k, hk, hk'⟩ := inLoop_conn hloop
  rw [hs.submit hk rfl (fun _ _ => Iff.rfl)
    fun d hd q hq hown => hd (submitted_owns.1 ⟨q, hq, hown⟩).1.symm, submitted_owns]
  cases out with
  | accepted => simp
  | refused =>
    cases b with
    | h11 => cases keeps <;> simp [dispatched, Conn.track, Conn.close]
    | httptools => simp [dispatched, Conn.stopTracking, hk'.2]
  | queued =>
    cases b with
    | h11 => cases keeps <;> simp [dispatched, Conn.track, Conn.close]
    | httptools => simp [dispatched, Conn.stopTracking, hk'.2]

/-- A pipelined request leaves no orphan exactly if the pool takes it or another one holds the
connection. -/
theorem pipelined (hs : s.NoOrphan) (hr : s.reqs[i]? = some r) {out : Submit}
    (h : s.pipelined b i r out = some s') :
    s'.NoOrphan ↔ out = .accepted ∨ s.Held r.conn := by
  obtain ⟨⟨-, hstage, hany⟩, ⟨⟩⟩ := Option.ite_none_right_eq_some.1 h
  rw [Option.any_eq_true] at hany
  obtain ⟨k, hk, hopen⟩ := hany
  have htouch : ∀ d j, OwnsAt { s with reqs := s.reqs.modify i Req.touch } d j ↔ s.OwnsAt d j := by
    intro d j
    have hmod := ownsAt_modifyBoth (c := d) (j := j) (f := Req.touch) (d := r.conn) (g := id) hr
    rw [modifyBoth, List.modify_id] at hmod
    rw [hmod]
    split
    · rename_i hj
      subst hj
      constructor
      · exact fun hown => ⟨r, hr, hown⟩
      · rintro ⟨q, hq, hown⟩
        cases hr.symm.trans hq
        exact hown
    · exact Iff.rfl
  rw [hs.submit hk (List.length_modify _ _ _) htouch
    fun d hd q hq hown => hd (submitted_owns.1 ⟨q, hq, hown⟩).1.symm, submitted_owns]
  simp [Conn.stopTracking, hopen, or_comm]

theorem closeConn (hs : s.NoOrphan) (hr : s.reqs[i]? = some r) (stage : Stage) :
    (s.closeConn i r stage).NoOrphan :=
  hs.settle hr rfl fun _ hopen => (by cases hopen)

theorem finishResponse (hs : s.NoOrphan) (hr : s.reqs[i]? = some r) {keeps : Bool}
    (h : s.finishResponse i r keeps = some s') : s'.NoOrphan := by
  obtain ⟨⟨hstage, -⟩, h⟩ := Option.ite_none_right_eq_some.1 h
  have hfinished : finished r.stage = .done ↔ r.stage = .done := by
    rcases hstage with hstage | hstage <;> simp [hstage, finished]
  cases h
  split
  · exact hs.settle hr rfl fun _ hopen => (by cases hopen)
  · split
    · refine hs.stay hr rfl ?_
      simp [Req.Owns, Req.touch, hfinished]
    · exact hs.settle hr rfl fun _ hopen => (giveBack_isOpen hopen).1

theorem emitOrClose (hs : s.NoOrphan) (hr : s.reqs[i]? = some r) (hlive : r.stage ≠ .done)
    (status : Nat) : (s.emitOrClose i r status).NoOrphan := by
  unfold Server.emitOrClose
  split
  · refine hs.stay hr rfl ?_
    simp [Req.Owns, hlive]
  · exact hs.closeConn hr .cleanup

theorem recover (hs : s.NoOrphan) (hr : s.reqs[i]? = some r) (h : s.recover i r = some s') :
    s'.NoOrphan := by
  unfold Server.recover at h
  split at h
  · cases h
    exact hs.closeConn hr .cleanup
  · rename_i hstage
    cases h
    exact hs.emitOrClose hr (by simp [hstage]) _
  · rename_i hstage
    cases h
    exact hs.emitOrClose hr (by simp [hstage]) _
  · rename_i hstage
    cases h
    refine hs.stay hr rfl ?_
    simp [Req.Owns, hstage]
  · cases h

/-- A request that holds its connection lets go of it at its end. -/
theorem cleanup (hs : s.NoOrphan) (hr : s.reqs[i]? = some r) (h : s.cleanup i r = some s') :
    s'.NoOrphan ↔ r.gaveBack = true ∨ r.accepted = false ∨ s.fired r = true ∨
      s.HeldBesides r.conn i ∨ ∀ k ∈ s.conns[r.conn]?, k.isOpen = true → k.tracked = true := by
  obtain ⟨hstage, h⟩ := Option.ite_none_right_eq_some.1 h
  cases h
  by_cases hfired : s.fired r = true
  · rw [if_pos hfired]
    -- the `finally` closes the connection
    exact iff_of_true (hs.closeConn hr .done) (.inr (.inr (.inl hfired)))
  · rw [if_neg hfired]
    by_cases hown : r.Owns r.conn
    · -- The request is the owner that goes, so what is left are the others.
      rw [modifyReq_eq s i _ r.conn, hs.change hr id (by rfl)]
      have hheld : (s.modifyBoth i (fun r => { r with stage := .done }) r.conn id).Held r.conn ↔
          s.HeldBesides r.conn i := by
        rw [held_iff, heldBesides_iff]
        apply exists_congr
        intro j
        rw [ownsAt_modifyBoth hr]
        split
        · rename_i hj
          simp [hj, Req.Owns]
        · rename_i hj
          simp [hj]
      unfold Kept
      rw [hheld]
      simp only [hown.2.2.1, hown.2.1, hfired, reduceCtorEq, false_or, Bool.false_eq_true,
        modifyBoth, List.modify_id]
      by_cases hbesides : s.HeldBesides r.conn i
      · simp [hbesides]
      · simp [hbesides]
    · -- The request gave its connection back or never had it.
      refine iff_of_true (hs.stay hr rfl ?_) ?_
      · simp [hown]
        simp [Req.Owns]
      -- it gave it back, or nobody was to serve it
      · by_cases hback : r.gaveBack = true
        · exact .inl hback
        · refine .inr (.inl ?_)
          rw [← Bool.not_eq_true]
          intro haccepted
          exact hown ⟨rfl, haccepted, by simpa using hback, by simp [hstage]⟩

end NoOrphan

end Server

/-! ## Runs -/

/-- The submission fails after the parser's feed. -/
theorem submission_failed_after_feed :
    ∃ s, (system .httptools).exec Server.start
      [.accept true, .call 0, .dispatch 0 .refused true, .leave] = some s ∧
      s.conns = [⟨false, true, false, 0, false⟩] ∧ s.reqs = [] ∧ ¬s.NoOrphan := by
  refine ⟨_, rfl, rfl, rfl, fun h => ?_⟩
  rcases h 0 _ rfl rfl with htracked | ⟨j, hj, -⟩
  · cases htracked
  · cases hj

end LocalPost.Http.Pool
