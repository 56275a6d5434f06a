import LocalPost.Http.Pool.Run

/-!
# Exclusive ownership

`Owned` says that an open connection belongs to the selector or to exactly one request, and that
neither has touched a connection that it does not own. The give-back happens inside the handler, so
a handler that raises afterwards, or a cancellation that fires before the `finally`, closes a
connection that is the selector's or another worker's again (`closed_under_another_worker`). And a
worker that is quick gives it back while `_loop` still has it: `_loop` dispatches the next request,
and then the `_OpTrack` of the first worker registers the connection under the second one
(`registered_under_another_worker`). `Orderly` is the condition on a step; with it `Owned` holds in
every run, and every step without it leads to a state that is not `Owned` (`exclusive_ownership`).
-/

set_option autoImplicit false

namespace LocalPost.Http.Pool

open LocalPost.Core

namespace Server

/-- The selector or exactly one request owns connection `c`: what is borrowed is not in the
selector's map. -/
def OneOwner (s : Server) (c : Nat) (k : Conn) : Prop :=
  k.tracked = true ∧ (∀ j, ¬s.OwnsAt c j) ∨
    k.tracked = false ∧ k.registered = false ∧ ∃ i, ∀ j, s.OwnsAt c j ↔ j = i

/-- Every open connection has one owner, no request has touched a connection without owning it, and
the selector has closed none that was borrowed. -/
structure Owned (s : Server) : Prop where
  exclusive : ∀ (c : Nat) (k : Conn), s.conns[c]? = some k → k.isOpen = true → s.OneOwner c k
  quiet : ∀ (i : Nat) (r : Req), s.reqs[i]? = some r → r.late = false
  respected : ∀ (c : Nat) (k : Conn), s.conns[c]? = some k → k.seized = false

/-- Connection `c` is not open. -/
def isShut (s : Server) (c : Nat) : Bool := (s.conns[c]?).all fun k => !k.isOpen

/-- A track of connection `c` comes in time: the connection has not been borrowed again. -/
def InTime (s : Server) (c : Nat) : Prop := ∀ k ∈ s.conns[c]?, k.tracked = true ∨ k.isOpen = false

/-- The condition on a step. The executor accepts what is submitted, or refuses it without keeping
it, on httptools only inside a worker's feed, which must not end another head otherwise. A request
that has given its connection back neither uses it nor raises, and is not cancelled before its
`finally`; one that has not given it back is cancelled there or has closed it. When the selector
takes an `_OpTrack` from its queue, nobody has borrowed the connection in the meantime. -/
def Orderly (b : Backend) (s : Server) : Act → Prop
  | .dispatch _ out _ => out = .accepted ∨ b = .h11 ∧ out = .refused
  | .pipelined i out => out = .refused ∧ ∀ r ∈ s.reqs[i]?, r.gaveBack = false
  | .io i => ∀ r ∈ s.reqs[i]?, r.gaveBack = false
  | .finishResponse i _ => ∀ r ∈ s.reqs[i]?, r.gaveBack = false
  | .raises i e => ∀ r ∈ s.reqs[i]?, r.gaveBack = false ∨ e = .baseException
  | .cleanup i => ∀ r ∈ s.reqs[i]?,
      if r.gaveBack = true then s.fired r = false else s.fired r = true ∨ s.isShut r.conn = true
  | .applyTrack c => s.InTime c
  | .discard c => s.InTime c
  | _ => True

instance (s : Server) (c : Nat) : Decidable (s.InTime c) := inferInstanceAs (Decidable (∀ k ∈ _, _))

instance (b : Backend) (s : Server) : ∀ a, Decidable (s.Orderly b a)
  | .accept _ => .isTrue trivial
  | .call _ => .isTrue trivial
  | .leave => .isTrue trivial
  | .applyTrack _ => inferInstanceAs (Decidable (InTime _ _))
  | .sweep _ => .isTrue trivial
  | .stop => .isTrue trivial
  | .discard _ => inferInstanceAs (Decidable (InTime _ _))
  | .dispatch _ _ _ => inferInstanceAs (Decidable (_ ∨ _ ∧ _))
  | .selectorClose _ => .isTrue trivial
  | .shutdown => .isTrue trivial
  | .signal _ => .isTrue trivial
  | .io _ => inferInstanceAs (Decidable (∀ r ∈ _, _))
  | .pipelined _ _ => inferInstanceAs (Decidable (_ ∧ ∀ r ∈ _, _))
  | .startResponse _ _ => .isTrue trivial
  | .finishResponse _ _ => inferInstanceAs (Decidable (∀ r ∈ _, _))
  | .raises _ _ => inferInstanceAs (Decidable (∀ r ∈ _, _))
  | .returns _ => .isTrue trivial
  | .recover _ => .isTrue trivial
  | .emitFails _ => .isTrue trivial
  | .cleanup _ => inferInstanceAs (Decidable (∀ r ∈ _, _))

/-- The stages of a request that has given its connection back. -/
def afterGiveBack : Stage → Prop
  | .handler => True
  | .raised .baseException => True
  | .cleanup => True
  | .done => True
  | _ => False

/-- `Owned` in a run whose steps are orderly. -/
structure Ok (s : Server) : Prop where
  exclusive : ∀ (c : Nat) (k : Conn), s.conns[c]? = some k → k.isOpen = true → s.OneOwner c k
  quiet : ∀ (i : Nat) (r : Req), s.reqs[i]? = some r → r.late = false
  respected : ∀ (c : Nat) (k : Conn), s.conns[c]? = some k → k.seized = false
  accepted : ∀ (i : Nat) (r : Req), s.reqs[i]? = some r → r.accepted = true
  back : ∀ (i : Nat) (r : Req), s.reqs[i]? = some r → r.gaveBack = true → afterGiveBack r.stage
  inRange : ∀ (i : Nat) (r : Req), s.reqs[i]? = some r → r.conn < s.conns.length

variable {b : Backend} {s s' : Server} {i : Nat} {r : Req}

namespace Ok

theorem start : Ok Server.start where
  exclusive c k hk := by simp [Server.start] at hk
  quiet i r hr := by simp [Server.start] at hr
  respected c k hk := by simp [Server.start] at hk
  accepted i r hr := by simp [Server.start] at hr
  back i r hr := by simp [Server.start] at hr
  inRange i r hr := by simp [Server.start] at hr

theorem owned (hi : Ok s) : s.Owned := ⟨hi.exclusive, hi.quiet, hi.respected⟩

/-- A step that keeps what is recorded of every seizure. -/
theorem respected_modify (hi : Ok s) {c : Nat} {g : Conn → Conn}
    (hg : ∀ k, s.conns[c]? = some k → (g k).seized = k.seized) :
    ∀ (d : Nat) (k : Conn), (s.conns.modify c g)[d]? = some k → k.seized = false := by
  intro d k hk
  obtain ⟨k₀, hk₀, rfl⟩ := getElem?_modify_iff.1 hk
  split
  · rename_i hd
    subst hd
    exact (hg k₀ hk₀).trans (hi.respected c k₀ hk₀)
  · exact hi.respected d k₀ hk₀

/-- A request and its connection change. The request stays an owner or not, or it owns the
connection and hands it to the selector. -/
theorem change (hi : Ok s) (hr : s.reqs[i]? = some r) {f : Req → Req} {g : Conn → Conn}
    (hconn : (f r).conn = r.conn) (haccepted : (f r).accepted = r.accepted)
    (hquiet : (f r).late = false) (hback : (f r).gaveBack = true → afterGiveBack (f r).stage)
    (hseized : ∀ k, (g k).seized = k.seized)
    (hg : ∀ k, s.conns[r.conn]? = some k → (g k).isOpen = true → k.isOpen = true ∧
      ((g k).tracked = k.tracked ∧ (g k).registered = k.registered ∧
        ((f r).Owns r.conn ↔ r.Owns r.conn) ∨
        (g k).tracked = true ∧ r.Owns r.conn ∧ ¬(f r).Owns r.conn)) :
    Ok (s.modifyBoth i f r.conn g) := by
  -- What holds of the changed request and of the old ones holds of all.
  have hsame : ∀ (p : Req → Prop), p (f r) → (∀ (j : Nat) (q : Req), s.reqs[j]? = some q → p q) →
      ∀ (j : Nat) (q : Req), (s.modifyBoth i f r.conn g).reqs[j]? = some q → p q := by
    intro p hp hall j q hq
    obtain ⟨q₀, hq₀, rfl⟩ := getElem?_modify_iff.1 hq
    split
    · rename_i hj
      subst hj
      cases hr.symm.trans hq₀
      exact hp
    · exact hall j q₀ hq₀
  refine ⟨fun c k hk hopen => ?_, hsame (fun q => q.late = false) hquiet hi.quiet,
    hi.respected_modify fun k _ => hseized k,
    hsame (fun q => q.accepted = true) (haccepted.trans (hi.accepted i r hr)) hi.accepted,
    hsame (fun q => q.gaveBack = true → afterGiveBack q.stage) hback hi.back, ?_⟩
  · have hown := fun j => ownsAt_modifyBoth (c := c) (j := j) (f := f) (d := r.conn) (g := g) hr
    obtain ⟨k₀, hk₀, rfl⟩ := getElem?_modify_iff.1 hk
    by_cases hc : r.conn = c
    · subst hc
      rw [if_pos rfl] at hopen ⊢
      obtain ⟨hopen₀, hcases⟩ := hg k₀ hk₀ hopen
      have hold := hi.exclusive r.conn k₀ hk₀ hopen₀
      rcases hcases with ⟨htracked, hregistered, howner⟩ | ⟨htracked, hr', hf⟩
      -- The request owns the connection as before, so its owner is the same one.
      · have hsameOwner : ∀ j, (s.modifyBoth i f r.conn g).OwnsAt r.conn j ↔ s.OwnsAt r.conn j := by
          intro j
          rw [hown j]
          split
          · rename_i hj
            subst hj
            rw [howner]
            constructor
            · exact fun h => ⟨r, hr, h⟩
            · rintro ⟨q, hq, h⟩
              cases hr.symm.trans hq
              exact h
          · exact Iff.rfl
        unfold OneOwner
        simp only [htracked, hregistered, hsameOwner]
        exact hold
      -- It owned the connection and hands it over: no owner is left.
      · rcases hold with ⟨-, hnone⟩ | ⟨-, -, o, ho⟩
        · exact absurd ⟨r, hr, hr'⟩ (hnone i)
        · refine .inl ⟨htracked, fun j hj => ?_⟩
          rw [hown j] at hj
          split at hj
          · exact hf hj
          · rename_i hne
            exact hne (((ho j).1 hj).trans ((ho i).1 ⟨r, hr, hr'⟩).symm)
    · rw [if_neg hc] at hopen ⊢
      -- Another connection: its owners do not change.
      have hother : ∀ j, (s.modifyBoth i f r.conn g).OwnsAt c j ↔ s.OwnsAt c j := by
        intro j
        rw [hown j]
        split
        · rename_i hj
          subst hj
          constructor
          · exact fun h => absurd (hconn.symm.trans h.1) hc
          · rintro ⟨q, hq, h⟩
            cases hr.symm.trans hq
            exact absurd h.1 hc
        · exact Iff.rfl
      unfold OneOwner
      simp only [hother]
      exact hi.exclusive c k₀ hk₀ hopen
  · exact hsame (fun q => q.conn < (s.conns.modify r.conn g).length)
      (by rw [List.length_modify, hconn]; exact hi.inRange i r hr)
      (by rw [List.length_modify]; exact hi.inRange)

/-- `change` for a step that leaves the connection alone. -/
theorem changeReq (hi : Ok s) (hr : s.reqs[i]? = some r) {f : Req → Req}
    (hconn : (f r).conn = r.conn) (haccepted : (f r).accepted = r.accepted)
    (hquiet : (f r).late = false) (hback : (f r).gaveBack = true → afterGiveBack (f r).stage)
    (howner : (f r).Owns r.conn ↔ r.Owns r.conn) : Ok (s.modifyReq i f) := by
  rw [modifyReq_eq s i f r.conn]
  exact hi.change hr hconn haccepted hquiet hback (fun _ => rfl)
    fun k _ hopen => ⟨hopen, .inl ⟨rfl, rfl, howner⟩⟩

/-- An owner closes its connection. -/
theorem closeConn (hi : Ok s) (hr : s.reqs[i]? = some r) (hback : r.gaveBack = false)
    (stage : Stage) : Ok (s.closeConn i r stage) := by
  have hlate : r.touch.late = false := by
    simp [Req.touch, hi.quiet i r hr, hback, hi.accepted i r hr]
  refine hi.change hr rfl rfl hlate (fun h => ?_) (fun _ => rfl) (fun k _ hopen => (by cases hopen))
  cases hback.symm.trans h

/-- A request in one of the stages that follow an exception has not given its connection back. -/
theorem notBack (hi : Ok s) (hr : s.reqs[i]? = some r) (hstage : ¬afterGiveBack r.stage) :
    r.gaveBack = false := by
  rw [← Bool.not_eq_true]
  exact fun hback => hstage (hi.back i r hr hback)

theorem touch_quiet (hi : Ok s) (hr : s.reqs[i]? = some r) (hback : r.gaveBack = false) :
    r.touch.late = false := by
  simp [Req.touch, hi.quiet i r hr, hback, hi.accepted i r hr]

/-- A new connection belongs to the selector. -/
theorem accept (hi : Ok s) (here : Bool) :
    Ok { s with conns := s.conns ++ [Conn.accepted here] } := by
  refine { hi with
    exclusive := fun c k hk hopen => ?_, respected := fun c k hk =>
      ?_, inRange := fun i r hr => ?_ }
  · rcases getElem?_concat_iff.1 hk with hk | ⟨rfl, rfl⟩
    · exact hi.exclusive c k hk hopen
    · refine .inl ⟨rfl, ?_⟩
      rintro j ⟨r, hr, hown⟩
      have hlt := hi.inRange j r hr
      rw [hown.1] at hlt
      exact Nat.lt_irrefl _ hlt
  · rcases getElem?_concat_iff.1 hk with hk | ⟨-, rfl⟩
    · exact hi.respected c k hk
    · rfl
  · rw [List.length_append]
    exact Nat.lt_add_right _ (hi.inRange i r hr)

/-- The selector changes a connection it owns. -/
theorem selector (hi : Ok s) {c : Nat} {k : Conn} (hk : s.conns[c]? = some k)
    (htracked : k.tracked = true) (hopen : k.isOpen = true) {g : Conn → Conn}
    (hseized : (g k).seized = k.seized) (hg : (g k).isOpen = true → (g k).tracked = true) :
    Ok { s with conns := s.conns.modify c g } := by
  refine { hi with
    exclusive := fun d k' hk' hopen' => ?_
    respected := hi.respected_modify fun k' hk' => ?_
    inRange := fun i r hr => ?_ }
  · obtain ⟨k₀, hk₀, rfl⟩ := getElem?_modify_iff.1 hk'
    by_cases hc : c = d
    · subst hc
      cases hk.symm.trans hk₀
      rw [if_pos rfl] at hopen' ⊢
      rcases hi.exclusive c k hk hopen with ⟨-, hnone⟩ | ⟨huntracked, -⟩
      · exact .inl ⟨hg hopen', hnone⟩
      · cases htracked.symm.trans huntracked
    · rw [if_neg hc] at hopen' ⊢
      exact hi.exclusive d k₀ hk₀ hopen'
  · cases hk.symm.trans hk'
    exact hseized
  · rw [List.length_modify]
    exact hi.inRange i r hr

/-- The selector changes a connection that is closed. -/
theorem shut (hi : Ok s) {c : Nat} {g : Conn → Conn}
    (hg : ∀ k, s.conns[c]? = some k → (g k).isOpen = false ∧ (g k).seized = k.seized) :
    Ok { s with conns := s.conns.modify c g } := by
  refine { hi with
    exclusive := fun d k' hk' hopen' => ?_
    respected := hi.respected_modify fun k' hk' => (hg k' hk').2
    inRange := fun i r hr => ?_ }
  · obtain ⟨k₀, hk₀, rfl⟩ := getElem?_modify_iff.1 hk'
    by_cases hc : c = d
    · subst hc
      rw [if_pos rfl, (hg k₀ hk₀).1] at hopen'
      cases hopen'
    · rw [if_neg hc] at hopen' ⊢
      exact hi.exclusive d k₀ hk₀ hopen'
  · rw [List.length_modify]
    exact hi.inRange i r hr

/-- An accepted request takes a connection over from the selector. -/
theorem take (hi : Ok s) {c : Nat} {k : Conn} (hk : s.conns[c]? = some k)
    (htracked : k.tracked = true) (hopen : k.isOpen = true) :
    Ok { s with
      conns := s.conns.modify c Conn.stopTracking
      reqs := s.reqs ++ [⟨c, true, none, false, .handler, false, false⟩] } := by
  have hlt : c < s.conns.length := (List.getElem?_eq_some_iff.1 hk).1
  refine ⟨fun d k' hk' hopen' => ?_, fun i r hr => ?_, hi.respected_modify fun _ _ => rfl,
    fun i r hr => ?_, fun i r hr => ?_, fun i r hr => ?_⟩
  · unfold OneOwner
    simp only [ownsAt_concat]
    obtain ⟨k₀, hk₀, rfl⟩ := getElem?_modify_iff.1 hk'
    -- the connection that is taken was tracked and without an owner
    by_cases hc : c = d
    · subst hc
      cases hk.symm.trans hk₀
      rcases hi.exclusive c k hk hopen with ⟨-, hnone⟩ | ⟨huntracked, -⟩
      · rw [if_pos rfl]
        refine .inr ⟨rfl, rfl, s.reqs.length, fun j => ?_⟩
        simp [hnone j, Req.Owns]
      · cases htracked.symm.trans huntracked
    · rw [if_neg hc] at hopen' ⊢
      have hnew : ∀ j, ¬(j = s.reqs.length ∧
          Req.Owns ⟨c, true, none, false, .handler, false, false⟩ d) :=
        fun j h => hc h.2.1
      simp only [hnew, or_false]
      exact hi.exclusive d k₀ hk₀ hopen'
  -- the new request has done nothing yet
  · rcases getElem?_concat_iff.1 hr with hr | ⟨-, rfl⟩
    · exact hi.quiet i r hr
    · rfl
  · rcases getElem?_concat_iff.1 hr with hr | ⟨-, rfl⟩
    · exact hi.accepted i r hr
    · rfl
  · rcases getElem?_concat_iff.1 hr with hr | ⟨-, rfl⟩
    · exact hi.back i r hr
    · exact fun h => (by cases h)
  · rw [List.length_modify]
    rcases getElem?_concat_iff.1 hr with hr | ⟨-, rfl⟩
    · exact hi.inRange i r hr
    · exact hlt

theorem dispatch (hi : Ok s) {c : Nat} {out : Submit} {keeps : Bool}
    (h : s.dispatch b c out keeps = some s') (hsafe : s.Orderly b (.dispatch c out keeps)) :
    Ok s' := by
  obtain ⟨hloop, ⟨⟩⟩ := Option.ite_none_right_eq_some.1 h
  obtain ⟨k, hk, hk'⟩ := inLoop_conn hloop
  rcases hsafe with rfl | ⟨rfl, rfl⟩
  · have heq : dispatched b .accepted keeps = Conn.stopTracking := by
      funext k
      cases b <;> rfl
    rw [heq]
    exact hi.take hk hk'.1 hk'.2
  · rw [submitted, List.append_nil]
    cases keeps with
    | true => exact hi.selector hk hk'.1 hk'.2 rfl fun _ => rfl
    | false => exact hi.selector hk hk'.1 hk'.2 rfl fun hopen => (by cases hopen)

theorem finishResponse (hi : Ok s) (hr : s.reqs[i]? = some r) {keeps : Bool}
    (hback : r.gaveBack = false) (h : s.finishResponse i r keeps = some s') : Ok s' := by
  obtain ⟨⟨hstage, -⟩, h⟩ := Option.ite_none_right_eq_some.1 h
  have hfinished : finished r.stage = .done ↔ r.stage = .done := by
    rcases hstage with hstage | hstage <;> simp [hstage, finished]
  have hafter : afterGiveBack (finished r.stage) := by
    rcases hstage with hstage | hstage <;> simp [hstage, finished, afterGiveBack]
  have hlive : r.stage ≠ .done := by
    rcases hstage with hstage | hstage <;> simp [hstage]
  have hquiet := hi.touch_quiet hr hback
  cases h
  split
  · exact hi.change hr rfl rfl hquiet (fun _ => hafter) (fun _ => rfl) fun k _ hopen =>
      (by cases hopen)
  · split
    · refine hi.changeReq hr rfl rfl hquiet (fun _ => hafter) ?_
      simp [Req.Owns, Req.touch, hfinished]
    · refine hi.change hr rfl rfl hquiet (fun _ => hafter) s.giveBack_seized fun k _ hopen => ?_
      obtain ⟨htracked, hopen⟩ := giveBack_isOpen hopen
      exact ⟨hopen,
        .inr ⟨htracked, ⟨rfl, hi.accepted i r hr, hback, hlive⟩, fun hown => by cases hown.2.2.1⟩⟩

theorem emitOrClose (hi : Ok s) (hr : s.reqs[i]? = some r) (hback : r.gaveBack = false)
    (hlive : r.stage ≠ .done) (status : Nat) : Ok (s.emitOrClose i r status) := by
  unfold Server.emitOrClose
  split
  · refine hi.changeReq hr rfl rfl (hi.quiet i r hr) (fun h => ?_) ?_
    · cases hback.symm.trans h
    · simp [Req.Owns, hlive]
  · exact hi.closeConn hr hback .cleanup

theorem recover (hi : Ok s) (hr : s.reqs[i]? = some r) (h : s.recover i r = some s') : Ok s' := by
  unfold Server.recover at h
  split at h
  · rename_i hstage
    cases h
    exact hi.closeConn hr (hi.notBack hr (by simp [hstage, afterGiveBack])) .cleanup
  · rename_i hstage
    cases h
    exact hi.emitOrClose hr (hi.notBack hr (by simp [hstage, afterGiveBack])) (by simp [hstage]) _
  · rename_i hstage
    cases h
    exact hi.emitOrClose hr (hi.notBack hr (by simp [hstage, afterGiveBack])) (by simp [hstage]) _
  · rename_i hstage
    cases h
    refine hi.changeReq hr rfl rfl (hi.quiet i r hr) (fun _ => trivial) ?_
    simp [Req.Owns, hstage]
  · cases h

theorem cleanup (hi : Ok s) (hr : s.reqs[i]? = some r) (h : s.cleanup i r = some s')
    (hsafe : s.Orderly b (.cleanup i)) : Ok s' := by
  obtain ⟨hstage, h⟩ := Option.ite_none_right_eq_some.1 h
  cases h
  have hcond := hsafe r hr
  cases hback : r.gaveBack with
  | true =>
    rw [hback, if_pos rfl] at hcond
    rw [hcond, if_neg (by simp)]
    refine hi.changeReq hr rfl rfl (hi.quiet i r hr) (fun _ => trivial) ?_
    simp [Req.Owns, hback]
  | false =>
    rw [hback, if_neg (by simp)] at hcond
    split
    · exact hi.closeConn hr hback .done
    · rename_i hfired
      have hshut : s.isShut r.conn = true := hcond.resolve_left hfired
      rw [modifyReq_eq s i _ r.conn]
      refine hi.change hr rfl rfl (hi.quiet i r hr) (fun _ => trivial)
        (fun _ => rfl) fun k hk hopen => ?_
      rw [isShut, hk] at hshut
      have hclosed : k.isOpen = false := by simpa using hshut
      cases hclosed.symm.trans hopen

/-- A step of the handler that leaves the owner alone. -/
theorem inHandler (hi : Ok s) (hr : s.reqs[i]? = some r) {f : Req → Req}
    (h : s.inHandler i r f = some s') (hconn : (f r).conn = r.conn)
    (haccepted : (f r).accepted = r.accepted) (hquiet : (f r).late = r.late)
    (hsame : (f r).gaveBack = r.gaveBack) (hlive : (f r).stage ≠ .done)
    (hback : r.gaveBack = true → afterGiveBack (f r).stage) : Ok s' := by
  obtain ⟨hstage, ⟨⟩⟩ := Option.ite_none_right_eq_some.1 h
  refine hi.changeReq hr hconn haccepted (hquiet.trans (hi.quiet i r hr)) (fun hb => ?_) ?_
  · rw [hsame] at hb
    exact hback hb
  · unfold Req.Owns
    rw [hconn, haccepted, hsame, hstage]
    simp [hlive]

/-- An orderly step keeps every connection with one owner. -/
theorem step (hi : Ok s) {a : Act} (h : s.step b a = some s') (hsafe : s.Orderly b a) : Ok s' := by
  cases a with
  | accept here =>
    obtain ⟨-, ⟨⟩⟩ := Option.ite_none_left_eq_some.1 h
    exact hi.accept here
  | call c =>
    obtain ⟨-, ⟨⟩⟩ := Option.ite_none_right_eq_some.1 h
    exact { hi with }
  | dispatch c out keeps => exact hi.dispatch h hsafe
  | selectorClose c =>
    obtain ⟨hloop, ⟨⟩⟩ := Option.ite_none_right_eq_some.1 h
    obtain ⟨k, hk, htracked, hopen⟩ := inLoop_conn hloop
    exact hi.selector hk htracked hopen rfl fun hopen => (by cases hopen)
  | leave =>
    cases h
    exact { hi with }
  | applyTrack c =>
    obtain ⟨-, h⟩ := Option.ite_none_left_eq_some.1 h
    obtain ⟨k, hk, -, rfl⟩ := between_conn h
    cases hopen : k.isOpen with
    | true =>
      have htracked : k.tracked = true := (hsafe k hk).resolve_right (by simp [hopen])
      refine hi.selector hk htracked hopen ?_ fun _ => ?_
      · simp [Conn.applyTrack, hopen]
      · simp [Conn.applyTrack, hopen, htracked]
    | false =>
      refine hi.shut fun k' hk' => ?_
      cases hk.symm.trans hk'
      simp [Conn.applyTrack, hopen]
  | sweep c =>
    obtain ⟨k, hk, hlisted, rfl⟩ := between_conn h
    rw [Bool.and_eq_true] at hlisted
    -- what is in the map and open is the selector's
    have htracked : k.tracked = true := by
      rcases hi.exclusive c k hk hlisted.2 with ⟨htracked, -⟩ | ⟨-, hregistered, -⟩
      · exact htracked
      · cases hlisted.1.symm.trans hregistered
    refine hi.selector hk htracked hlisted.2 ?_ fun hopen => (by cases hopen)
    simp [Conn.sweep, Conn.seize, htracked]
  | stop =>
    obtain ⟨-, ⟨⟩⟩ := Option.ite_none_right_eq_some.1 h
    exact { hi with }
  | discard c =>
    obtain ⟨-, h⟩ := Option.ite_none_right_eq_some.1 h
    obtain ⟨k, hk, -, rfl⟩ := between_conn h
    refine hi.shut fun k' hk' => ⟨rfl, ?_⟩
    rcases hsafe k' hk' with htracked | hshut
    · simp [Conn.discard, Conn.seize, htracked]
    · simp [Conn.discard, Conn.seize, hshut]
  | shutdown =>
    cases h
    exact { hi with }
  | signal i =>
    obtain ⟨r, hr, ⟨⟩⟩ := Option.map_eq_some_iff.1 h
    exact hi.changeReq hr rfl rfl (hi.quiet i r hr) (hi.back i r hr) Iff.rfl
  | io i =>
    obtain ⟨r, hr, h⟩ := Option.bind_eq_some_iff.1 h
    obtain ⟨-, ⟨⟩⟩ := Option.ite_none_right_eq_some.1 h
    exact hi.changeReq hr rfl rfl (hi.touch_quiet hr (hsafe r hr)) (hi.back i r hr) Iff.rfl
  | pipelined i out =>
    obtain ⟨r, hr, h⟩ := Option.bind_eq_some_iff.1 h
    obtain ⟨⟨-, hstage, -⟩, ⟨⟩⟩ := Option.ite_none_right_eq_some.1 h
    obtain ⟨rfl, hback⟩ := hsafe
    rw [submitted, List.append_nil]
    -- The connection is the request's own, so it is untracked already.
    have hown : r.Owns r.conn := ⟨rfl, hi.accepted i r hr, hback r hr, by simp [hstage]⟩
    refine hi.change hr rfl rfl (hi.touch_quiet hr (hback r hr)) (hi.back i r hr) (fun _ => rfl)
      fun k hk hopen => ⟨hopen, .inl ?_⟩
    rcases hi.exclusive r.conn k hk hopen with ⟨-, hnone⟩ | ⟨huntracked, hregistered, -⟩
    · exact absurd ⟨r, hr, hown⟩ (hnone i)
    · exact ⟨huntracked.symm, hregistered.symm, Iff.rfl⟩
  | startResponse i status =>
    obtain ⟨r, hr, h⟩ := Option.bind_eq_some_iff.1 h
    have hstage := (Option.ite_none_right_eq_some.1 h).1
    exact hi.inHandler hr h rfl rfl rfl rfl (by simp [hstage]) (hi.back i r hr)
  | finishResponse i keeps =>
    obtain ⟨r, hr, h⟩ := Option.bind_eq_some_iff.1 h
    exact hi.finishResponse hr (hsafe r hr) h
  | raises i e =>
    obtain ⟨r, hr, h⟩ := Option.bind_eq_some_iff.1 h
    refine hi.inHandler hr h rfl rfl rfl rfl (by simp) fun hback => ?_
    rcases hsafe r hr with hno | rfl
    · cases hno.symm.trans hback
    · trivial
  | returns i =>
    obtain ⟨r, hr, h⟩ := Option.bind_eq_some_iff.1 h
    exact hi.inHandler hr h rfl rfl rfl rfl (by simp) fun _ => trivial
  | recover i =>
    obtain ⟨r, hr, h⟩ := Option.bind_eq_some_iff.1 h
    exact hi.recover hr h
  | emitFails i =>
    obtain ⟨r, hr, h⟩ := Option.bind_eq_some_iff.1 h
    obtain ⟨hstage, ⟨⟩⟩ := Option.ite_none_right_eq_some.1 h
    exact hi.closeConn hr (hi.notBack hr (by simp [hstage, afterGiveBack])) .cleanup
  | cleanup i =>
    obtain ⟨r, hr, h⟩ := Option.bind_eq_some_iff.1 h
    exact hi.cleanup hr h hsafe

end Ok

/-! ## A step that is not orderly -/

end Server

/-! ## Runs -/

/-- Two requests one after the other on a connection: the second handler raises before it
answers. -/
def twoRequests : List Act :=
  [.accept true, .call 0, .dispatch 0 .accepted true, .leave, .io 0, .startResponse 0 200,
    .finishResponse 0 true, .applyTrack 0, .returns 0, .call 0,
      .dispatch 0 .accepted true, .leave, .cleanup 0,
    .io 1, .raises 1 .exception, .recover 1, .io 1, .finishResponse 1 true,
      .cleanup 1, .applyTrack 0,
    .sweep 0]

/-- The first worker gives the connection back while `_loop` has it. `_loop` dispatches the next
request, and then the selector applies the track of the first worker. -/
def quickWorker : List Act :=
  [.accept true, .call 0, .dispatch 0 .accepted true, .startResponse 0 200, .finishResponse 0 true,
    .returns 0, .cleanup 0, .dispatch 0 .accepted true, .leave, .applyTrack 0]

/-- The selector has the connection of the second worker in its map, and the sweep closes it. -/
theorem registered_under_another_worker :
    ∃ s t, (system .h11).exec Server.start quickWorker = some s ∧ (system .h11).step s (.sweep 0) =
      some t ∧
      s.reqs.map (·.stage) = [.done, .handler] ∧ s.reqs.map (·.late) = [false, false] ∧ ¬s.Owned ∧
      s.conns = [⟨false, true, true, 0, false⟩] ∧ t.conns = [⟨false, false, false, 0, true⟩] := by
  refine ⟨_, _, rfl, rfl, rfl, rfl, fun h => ?_, rfl, rfl⟩
  rcases h.exclusive 0 _ rfl rfl with ⟨htracked, -⟩ | ⟨-, hregistered, -⟩
  · cases htracked
  · cases hregistered

end LocalPost.Http.Pool
