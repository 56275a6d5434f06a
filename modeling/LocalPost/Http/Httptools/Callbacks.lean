import LocalPost.Http.Httptools.Slots

/-!
# The callbacks of a feed and the slots

A callback of a head changes the head only, a callback of a body the buffer and the completion
flags. The end of a head takes the slots for a new context; it keeps them in order when all earlier
contexts are finished.
-/

set_option autoImplicit false

namespace LocalPost.Http.Httptools

open LocalPost.Core

namespace Server

variable {max : Nat} {s s' : Server}

namespace Ok

section Fire

variable {who : Option Nat} {cb : Callback} {rest : List Callback} {stage : Stage}

theorem next (hi : Ok s) (hfeed : s.feed = some (who, cb :: rest)) :
    ∃ stage, s.stream.stage.next cb = some stage ∧
      Httptools.valid stage (rest ++ s.wire) = true := by
  have hv := hi.valid
  rw [pending, hfeed] at hv
  exact valid_cons hv

/-- A finished context keeps its pair when its request grows. -/
theorem pair_grows (hi : Ok s) (hnext : s.stream.stage.next cb = some stage)
    (hstream : s'.stream = s.stream.observe cb) {k : Nat} {c : Ctx} {m' : Msg}
    (hc : s.ctxs[k]? = some c) (hp : c.phase = .finished) (hm' : s'.stream.msgs[k]? = some m') :
    Pair s' k c m' := by
  obtain ⟨m, hm, hpair⟩ := hi.msg hc
  obtain ⟨m'', hm'', hrequest, hbody⟩ := s.stream.observe_grows cb hm
  rw [hstream] at hm'
  cases hm'.symm.trans hm''
  exact {
    request := hpair.request.trans hrequest.symm
    given := hpair.given.trans hbody
    eom := fun hsaw => by
      obtain ⟨hgot, hc'⟩ := hpair.eom hsaw
      have hsame := s.stream.observe_complete hi.ordered hnext hm hc'
      cases hm'.symm.trans hsame
      exact ⟨hgot, hc'⟩
    closes := hpair.closes
    finished := hpair.finished
    active := fun hne => absurd hp hne }

/-- While the slots of the current context stay, a callback only shortens the feed. -/
theorem active_fired {k : Nat} {c : Ctx} {m m' : Msg} {conn : Conn} {stream : Stream}
    (hact : Active s k c m) (hfeed : s.feed = some (who, cb :: rest))
    (hctx : conn.ctx = s.conn.ctx) (htracked : conn.tracked = s.conn.tracked)
    (hdeferred : conn.deferred = s.conn.deferred) (hbody : c.got ++ conn.bodyBuf = m'.body)
    (heom : conn.bodyEom = m'.complete) :
    Active { s with conn := conn, feed := some (who, rest), stream := stream } k c m' where
  current := hctx.trans hact.current
  body := hbody
  eom := heom
  deferred hp := by
    obtain ⟨hstarted, ht, hslot, rest', hf⟩ := hact.deferred hp
    cases hfeed.symm.trans hf
    exact ⟨hstarted, htracked.trans ht, hdeferred.trans hslot, rest, rfl⟩
  running hp := by
    obtain ⟨ht, hslot, hwho⟩ := hact.running hp
    refine ⟨htracked.trans ht, hdeferred.trans hslot, fun who' rest' hf => ?_⟩
    cases hf
    exact hwho who _ hfeed

/-- A callback of a head changes nothing but the head. -/
theorem headStep (hi : Ok s) (hfeed : s.feed = some (who, cb :: rest))
    (hnext : s.stream.stage.next cb = some .head)
    (hmsgs : (s.stream.observe cb).msgs = s.stream.msgs) {cur : Scratch}
    (hcur : HeadOk cur (s.stream.observe cb)) (hover : cur.oversize = false) :
    Ok { s with
      conn := { s.conn with cur := cur }, feed := some (who, rest)
      stream := s.stream.observe cb } := by
  have hstage := s.stream.stage_observe hnext
  obtain ⟨stage', hnext', hvalid⟩ := hi.next hfeed
  cases hnext.symm.trans hnext'
  -- A callback of a head reaches the scratch area and the stream, and no request.
  refine { hi with
    valid := ?_, ordered := hi.ordered.observe hnext, head := fun _ => hcur
    fits := ⟨hover, hi.fits.2⟩, length := ?_, pairs := ?_, inBody :=
      ?_, selector := ?_, worker := ?_
    rolled := ?_ }
  · simp only [hstage]
    exact hvalid
  · simp only [hmsgs]
    exact hi.length
  · intro k c m hc hm
    simp only [hmsgs] at hm
    have hpair := hi.pairs k c m hc hm
    exact { hpair with
      active := fun hp => active_fired (hpair.active hp) hfeed rfl rfl rfl (hpair.active hp).body
        (hpair.active hp).eom }
  · intro hs
    cases hstage.symm.trans hs
  · rintro rest' ⟨⟩
    exact hi.selector _ hfeed
  · rintro i rest' ⟨⟩
    exact hi.worker i _ hfeed
  · intro _
    left
    simp [hstage]

/-- A callback of a body changes the buffer and the completion flags. -/
theorem bodyStep (hi : Ok s) (hfeed : s.feed = some (who, cb :: rest))
    (hnext : s.stream.stage.next cb = some stage) (hbody : s.stream.stage = .body)
    (hhead : stage ≠ .head) (hlen : (s.stream.observe cb).msgs.length = s.stream.msgs.length)
    (buf : Bytes) (eom complete : Bool)
    (hrolled : complete = true → stage ≠ .body ∨ s.conn.closeAfterResponse = true)
    (hpairs : ∀ (k : Nat) (c : Ctx) (m m' : Msg), s.ctxs[k]? = some c → c.phase ≠ .finished →
      Pair s k c m → s.stream.msgs[k]? = some m → (s.stream.observe cb).msgs[k]? = some m' →
      c.got ++ buf = m'.body ∧ eom = m'.complete ∧
        (c.sawEom = true → c.got = m'.body ∧ m'.complete = true)) :
    Ok { s with
      conn := { s.conn with bodyBuf := buf, bodyEom := eom, messageComplete := complete }
      feed := some (who, rest), stream := s.stream.observe cb } := by
  have hstage := s.stream.stage_observe hnext
  obtain ⟨stage', hnext', hvalid⟩ := hi.next hfeed
  cases hnext.symm.trans hnext'
  -- A callback of a body: only the buffer and the message of the last head change.
  refine { hi with
    valid := ?_, ordered := hi.ordered.observe hnext
    head := fun hs => absurd (hstage.symm.trans hs) hhead
    length := hi.length.trans hlen.symm, pairs := ?_, inBody := fun _ => hi.inBody hbody
    selector := ?_, worker := ?_, rolled := ?_ }
  · simp only [hstage]
    exact hvalid
  · intro k c m' hc hm'
    -- a finished request keeps what it had; the others are compared with their grown message
    by_cases hp : c.phase = .finished
    · exact hi.pair_grows hnext rfl hc hp hm'
    · obtain ⟨m, hm, hpair⟩ := hi.msg hc
      obtain ⟨m'', hm'', hrequest, hgrown⟩ := s.stream.observe_grows cb hm
      cases hm''.symm.trans hm'
      obtain ⟨hgot, heom, hsaw⟩ := hpairs k c m m' hc hp hpair hm hm'
      exact {
        request := hpair.request.trans hrequest.symm
        given := hpair.given.trans hgrown
        eom := hsaw
        closes := hpair.closes
        finished := hpair.finished
        active := fun _ => active_fired (hpair.active hp) hfeed rfl rfl rfl hgot heom }
  · rintro rest' ⟨⟩
    exact hi.selector _ hfeed
  · rintro i rest' ⟨⟩
    exact hi.worker i _ hfeed
  · intro hmc
    simp only [hstage]
    exact hrolled hmc

/-- The request of an unfinished context is the last one, and inside a body it is incomplete. -/
theorem last_incomplete (hi : Ok s) (hbody : s.stream.stage = .body) {k : Nat} {c : Ctx} {m : Msg}
    (hc : s.ctxs[k]? = some c) (hp : c.phase ≠ .finished) (hm : s.stream.msgs[k]? = some m) :
    s.stream.msgs.length - 1 = k ∧ m.complete = false := by
  have hlast := (hi.unfinished hc hp).2
  rw [hi.length] at hlast
  have hk : s.stream.msgs.length - 1 = k := by omega
  obtain ⟨m', hm', hf⟩ := hi.ordered.inBody hbody
  rw [hk] at hm'
  cases hm.symm.trans hm'
  exact ⟨hk, hf⟩

/-- Body bytes reach the buffer of an unfinished context, and are dropped after a finished one. -/
theorem body (hi : Ok s) {data : Bytes} (hfeed : s.feed = some (who, .body data :: rest))
    (hacc : ∀ (k : Nat) (m : Msg), (s.stream.observe (.body data)).msgs[k]? = some m →
      m.body.length ≤ max)
    (hsafe : s.conn.deferred.isSome = true → s.conn.responseStarted = false) :
    Ok { s with
      conn := s.conn.onBody max data, feed := some (who, rest)
      stream := s.stream.observe (.body data) } := by
  obtain ⟨stage, hnext, -⟩ := hi.next hfeed
  obtain ⟨hbody, rfl⟩ := next_body hnext
  obtain ⟨k, hk⟩ := Option.isSome_iff_exists.1 (hi.inBody hbody)
  have hlast := hi.current k hk
  obtain ⟨c, hc⟩ : ∃ c, s.ctxs[k]? = some c := ⟨_, List.getElem?_eq_getElem (by omega)⟩
  obtain ⟨m, hm, hpair⟩ := hi.msg hc
  have hlen : (s.stream.observe (.body data)).msgs.length = s.stream.msgs.length :=
    List.length_modify ..
  have hstep := hi.bodyStep hfeed hnext hbody (by simp) hlen
  unfold Conn.onBody
  rw [hi.fits.1, if_neg (by simp)]
  by_cases hp : c.phase = .finished
  · -- No worker runs, so the connection is tracked and the flag of the response is set.
    have hresponse := hi.started k c hk hc (hpair.finished hp)
    have hnotrunning : ∀ i, s.isRunning i ≠ true := by
      intro i hi'
      obtain ⟨d, hd, hdp⟩ := isRunning_iff.1 hi'
      have hik := (hi.unfinished hd (by simp [hdp])).1
      rw [hk] at hik
      cases hik
      cases hc.symm.trans hd
      cases hp.symm.trans hdp
    have htracked : s.conn.tracked = true := by
      cases who with
      | none => exact hi.selector _ hfeed
      | some i => exact absurd (hi.worker i _ hfeed) (hnotrunning i)
    rw [hresponse, hk, htracked, if_pos (by simp)]
    refine hstep s.conn.bodyBuf s.conn.bodyEom s.conn.messageComplete
      (fun hmc => (hi.rolled hmc).imp_left fun hne => absurd hbody hne) ?_
    · intro j d m₁ m₂ hd hdp
      have hj := (hi.unfinished hd hdp).1
      rw [hk] at hj
      cases hj
      cases hc.symm.trans hd
      exact absurd hp hdp
  -- The context is not finished: the piece fits and goes to the buffer.
  · have hact := hpair.active hp
    have hkeep : ¬((s.conn.responseStarted && s.conn.ctx.isSome && s.conn.tracked) = true) := by
      cases hphase : c.phase with
      | deferred =>
        have hslot := (hact.deferred hphase).2.2.1
        simp [hsafe (by simp [hslot])]
      | running => simp [(hact.running hphase).1]
      | finished => exact absurd hphase hp
    obtain ⟨hlastm, hincomplete⟩ := hi.last_incomplete hbody hc hp hm
    have hm' : (s.stream.observe (.body data)).msgs[k]? = some { m with body := m.body ++ data } :=
      getElem?_modify_iff.2 ⟨m, hm, if_pos hlastm⟩
    have hfit : s.conn.bodyBuf.length + data.length ≤ max := by
      have h := hacc k _ hm'
      simp only [← hact.body, List.length_append] at h
      omega
    rw [if_neg hkeep, if_neg (by omega)]
    refine hstep (s.conn.bodyBuf ++ data) s.conn.bodyEom s.conn.messageComplete
      (fun hmc => (hi.rolled hmc).imp_left fun hne => absurd hbody hne) ?_
    · intro j d m₁ m₂ hd hdp _ hm₁ hm₂
      have hj := (hi.unfinished hd hdp).1
      rw [hk] at hj
      cases hj
      cases hc.symm.trans hd
      cases hm.symm.trans hm₁
      cases hm'.symm.trans hm₂
      refine ⟨?_, hact.eom, fun hsaw => ?_⟩
      · rw [← List.append_assoc, hact.body]
      · cases hincomplete.symm.trans (hpair.eom hsaw).2

theorem messageComplete (hi : Ok s) (hfeed : s.feed = some (who, .messageComplete :: rest)) :
    Ok { s with
      conn := s.conn.onMessageComplete, feed := some (who, rest)
      stream := s.stream.observe .messageComplete } := by
  obtain ⟨stage, hnext, -⟩ := hi.next hfeed
  obtain ⟨hbody, rfl⟩ := next_messageComplete hnext
  refine hi.bodyStep hfeed hnext hbody (by simp) (List.length_modify ..) s.conn.bodyBuf true true
    (fun _ => .inl (by simp)) ?_
  intro k c m m' hc hp hpair hm hm'
  obtain ⟨hlast, hincomplete⟩ := hi.last_incomplete hbody hc hp hm
  have hnew : (s.stream.observe .messageComplete).msgs[k]? = some { m with complete := true } :=
    getElem?_modify_iff.2 ⟨m, hm, if_pos hlast⟩
  cases hnew.symm.trans hm'
  refine ⟨(hpair.active hp).body, rfl, fun hsaw => ?_⟩
  cases hincomplete.symm.trans (hpair.eom hsaw).2

/-- A head is complete: all earlier contexts are finished, and one for the new request is added. -/
theorem headComplete (hi : Ok s) (hall : ∀ c ∈ s.ctxs, c.phase = .finished)
    (hfeed : s.feed = some (who, cb :: rest)) (hnext : s.stream.stage.next cb = some .body)
    {m : Msg} (hmsgs : (s.stream.observe cb).msgs = s.stream.msgs ++ [m]) {r : Server} {c : Ctx}
    (hrfeed : r.feed = some (who, rest)) (hrwire : r.wire = s.wire)
    (hrstream : r.stream = s.stream.observe cb) (hrctxs : r.ctxs = s.ctxs ++ [c])
    (hopen : r.conn.isOpen = true) (htracked : r.conn.tracked = true)
    (hctx : r.conn.ctx = some s.ctxs.length)
    (hfits : r.conn.cur.oversize = false ∧ r.conn.bodyTooLarge = none)
    (hpair : Pair r s.ctxs.length c m)
    (hslot : ∀ k, r.conn.deferred = some k → k = s.ctxs.length ∧ c.phase = .deferred)
    (hstarted : c.started = true → r.conn.responseStarted = true)
    (hrolled : r.conn.messageComplete = true → r.conn.closeAfterResponse = true)
    (hclosing : r.conn.closeAfterResponse = true →
      s.conn.closeAfterResponse = true ∨ c.closes = true)
    (hanswers : r.answers =
      if c.started = true then s.answers ++ [Answer.of s.ctxs.length] else s.answers) : Ok r := by
  have hstage : r.stream.stage = .body := by
    rw [hrstream]
    exact s.stream.stage_observe hnext
  have hold : ∀ k (d : Ctx), s.ctxs[k]? = some d → d.phase = .finished :=
    fun k d hd => hall d (List.mem_of_getElem? hd)
  have hwho : who = none := by
    cases who with
    | none => rfl
    | some i =>
      obtain ⟨d, hd, hdp⟩ := isRunning_iff.1 (hi.worker i _ hfeed)
      cases (hold i d hd).symm.trans hdp
  obtain ⟨stage', hnext', hvalid⟩ := hi.next hfeed
  cases hnext.symm.trans hnext'
  obtain ⟨n, hn, hle, hstartedn⟩ := hi.answers
  -- The answers so far are one for each context: all of these are finished.
  have hnlen : n = s.ctxs.length := by
    by_contra hne
    have hlt : n < s.ctxs.length := by omega
    have hd := List.getElem?_eq_getElem hlt
    obtain ⟨m', -, hpair'⟩ := hi.msg hd
    have := (hstartedn n _ hd).1 (hpair'.finished (hold n _ hd))
    omega
  subst hnlen
  constructor
  · rw [hstage, pending, hrfeed, hrwire]
    exact hvalid
  · rw [hrstream]
    exact hi.ordered.observe hnext
  · intro hs
    cases hstage.symm.trans hs
  · exact hfits
  · rw [hrctxs, hrstream, hmsgs, List.length_append, List.length_append, hi.length]
    rfl
  -- Each context fits its message: the old ones as before, the new one by `hpair`.
  · intro k d m' hd hm'
    rw [hrctxs] at hd
    rcases getElem?_concat_iff.1 hd with hd | ⟨rfl, rfl⟩
    · exact hi.pair_grows hnext hrstream hd (hold k d hd) hm'
    · rw [hrstream, hmsgs, hi.length] at hm'
      have hlast : (s.stream.msgs ++ [m])[s.stream.msgs.length]? = some m :=
        getElem?_concat_iff.2 (.inr ⟨rfl, rfl⟩)
      cases hlast.symm.trans hm'
      exact hpair
  · intro k hk
    cases hctx.symm.trans hk
    simp [hrctxs]
  · intro _
    simp [hctx]
  · intro k hk
    obtain ⟨rfl, hp⟩ := hslot k hk
    refine ⟨c, ?_, hp⟩
    rw [hrctxs]
    exact getElem?_concat_iff.2 (.inr ⟨rfl, rfl⟩)
  · intro _ ht
    cases htracked.symm.trans ht
  · intro _ _
    exact htracked
  · intro i rest' hf
    rw [hrfeed, hwho] at hf
    cases hf
  · intro k d hk hd hds
    cases hctx.symm.trans hk
    rw [hrctxs] at hd
    rcases getElem?_concat_iff.1 hd with hd | ⟨-, rfl⟩
    · have hlt := (List.getElem?_eq_some_iff.1 hd).1
      omega
    · exact hstarted hds
  · intro hmc
    exact .inr (hrolled hmc)
  · intro hcl
    rw [hrctxs]
    rcases hclosing hcl with hcl | hcl
    · obtain ⟨d, hd, hdc⟩ := hi.closing hcl
      exact ⟨d, List.mem_append_left _ hd, hdc⟩
    · exact ⟨c, by simp, hcl⟩
  · intro hcl
    cases hopen.symm.trans hcl
  -- An answer is added just when the new context has begun its own.
  · refine ⟨if c.started = true then s.ctxs.length + 1 else s.ctxs.length, ?_, ?_, ?_⟩
    · rw [hanswers, hn]
      split
      · rw [List.range_succ, List.map_append]
        rfl
      · rfl
    · rw [hrctxs]
      split <;> simp
    · intro k d hd
      rw [hrctxs] at hd
      rcases getElem?_concat_iff.1 hd with hd | ⟨rfl, rfl⟩
      · have hlt := (List.getElem?_eq_some_iff.1 hd).1
        rw [hstartedn k d hd]
        split
        · omega
        · exact Iff.rfl
      · split
        · rename_i hs
          simp [hs]
        · rename_i hs
          simp [hs]

/-- The edge case at the end of `on_headers_complete` is met by an inline answer only. -/
theorem headersComplete (hi : Ok s) (hopen : s.conn.isOpen = true) {method version : Bytes}
    {keepAlive : Bool} (h : Handling)
    (hfeed : s.feed = some (who, .headersComplete method version keepAlive :: rest))
    (hfits : oversizeLength max s.stream.headers = none)
    (hall : ∀ c ∈ s.ctxs, c.phase = .finished)
    (hexpect : h = .pool → s.conn.cur.expect100 = true → s.conn.responseStarted = false) :
    Ok ({ s with
      feed := some (who, rest)
      stream := s.stream.observe (.headersComplete method version keepAlive)
      }.onHeadersComplete max method version keepAlive h) := by
  obtain ⟨stage, hnext, -⟩ := hi.next hfeed
  obtain ⟨hstage, rfl⟩ := next_headersComplete hnext
  obtain ⟨hheaders, htarget, -⟩ := hi.head hstage
  have hwho : who = none := by
    cases who with
    | none => rfl
    | some i =>
      obtain ⟨d, hd, hdp⟩ := isRunning_iff.1 (hi.worker i _ hfeed)
      cases (hall d (List.mem_of_getElem? hd)).symm.trans hdp
  subst hwho
  have htracked := hi.selector _ hfeed
  have hflat : s.conn.flattenTarget.cur.headers = s.stream.headers := hheaders
  have hclosing := hi.closing
  unfold onHeadersComplete
  simp only [hflat, hfits]
  cases h with
  | inline hasClose =>
    rw [handle_inline { s with
      conn := s.conn.flattenTarget, feed := some (none, rest)
      stream := s.stream.observe (.headersComplete method version keepAlive) }]
    -- Whether the edge case applies or not, only `messageComplete` and the closing flag depend on
    -- it.
    have hcommon : ∀ (closeAfter complete : Bool), (complete = true → closeAfter = true) →
        (closeAfter = true → s.conn.closeAfterResponse = true ∨
          (hasClose || !keepAlive || s.conn.cur.expect100) = true) →
        Ok { s with
          conn := { s.conn.flattenTarget with
            ctx := some s.ctxs.length, bodyBuf := [], bodyEom := false, messageComplete := complete
            responseStarted := true, tracked := true, closeAfterResponse := closeAfter }
          ctxs := s.ctxs ++ [{
            request := Request.ofTarget method s.conn.flattenTarget.cur.target
              s.conn.flattenTarget.cur.headers version
            expect100 := s.conn.flattenTarget.cur.expect100
            keepAlive := keepAlive
            continueSent := false
            started := true
            closes := hasClose || !keepAlive || s.conn.flattenTarget.cur.expect100
            phase := .finished
            got := []
            sawEom := false
            raised := false
            msg := (s.stream.observe (.headersComplete method version keepAlive)).msgs.length - 1 }]
          answers := s.answers ++ [.of s.ctxs.length], feed := some (none, rest)
          stream := s.stream.observe (.headersComplete method version keepAlive) } := by
      intro closeAfter complete hcomplete hclose
      refine hi.headComplete hall hfeed hnext rfl rfl rfl rfl rfl hopen rfl rfl hi.fits ?_ ?_
        (fun _ => rfl) hcomplete hclose rfl
      · exact {
          request := by simp only [Conn.flattenTarget, htarget, hheaders]
          given := List.nil_prefix
          eom := fun hf => by cases hf
          closes := fun _ hka => by
            have hka' : keepAlive = false := hka
            simp [hka']
          finished := fun _ => rfl
          active := fun hne => absurd rfl hne }
      · intro k hk
        obtain ⟨c, hc, hp⟩ := hi.slot k hk
        cases (hall c (List.mem_of_getElem? hc)).symm.trans hp
    unfold expectEdge
    split
    · rename_i hcond
      refine hcommon true true (fun _ => rfl) fun _ => .inr ?_
      simp only [Bool.and_eq_true] at hcond
      rw [Bool.or_eq_true]
      exact .inr hcond.2
    · refine hcommon _ false (fun hf => by cases hf) fun hclose => ?_
      rcases Bool.or_eq_true_iff.1 hclose with hclose | hclose
      · exact .inl hclose
      · rw [Bool.or_eq_true]
        exact .inr (.inl hclose)
  | pool =>
    have hedge : expectEdge ((newCtx { s with
        conn := s.conn.flattenTarget, feed := some (none, rest)
        stream := s.stream.observe (.headersComplete method version keepAlive) }
          method version keepAlive).handle s.ctxs.length .pool) = (newCtx { s with
        conn := s.conn.flattenTarget, feed := some (none, rest)
        stream := s.stream.observe (.headersComplete method version keepAlive) }
          method version keepAlive).handle s.ctxs.length .pool := by
      refine if_neg fun hcond => ?_
      simp only [Bool.and_eq_true] at hcond
      obtain ⟨⟨-, hresponse⟩, hexp⟩ := hcond
      cases (hexpect rfl hexp).symm.trans hresponse
    rw [hedge]
    refine hi.headComplete hall hfeed hnext rfl rfl rfl rfl rfl hopen htracked rfl
      hi.fits ?_ ?_ ?_ ?_ ?_ ?_
    · exact {
        request := by simp only [Conn.flattenTarget, htarget, hheaders]
        given := List.nil_prefix
        eom := fun hf => by cases hf
        closes := fun hf => by cases hf
        finished := fun hf => by cases hf
        active := fun _ => {
          current := rfl
          body := rfl
          eom := rfl
          deferred := fun _ => ⟨rfl, htracked, rfl, rest, rfl⟩
          running := fun hf => by cases hf } }
    · rintro k ⟨⟩
      exact ⟨rfl, rfl⟩
    · intro hf
      cases hf
    · intro hf
      cases hf
    · exact .inl
    · rfl

end Fire

end Ok

end Server

end LocalPost.Http.Httptools
