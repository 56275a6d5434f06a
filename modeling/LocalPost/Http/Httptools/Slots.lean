import LocalPost.Http.Httptools.Server

/-!
# The single slots of the connection

`Ok` says how the slots of the connection (current context, body buffer, completion flags, deferred
dispatch) stand to the contexts and to the requests received: all contexts but the current one are
finished, and what an unfinished context has been given together with what is buffered is what has
arrived of its body. Every step of the selector thread and of a worker keeps it, and so does the end
of a feed.
-/

set_option autoImplicit false

namespace LocalPost.Http.Httptools

open LocalPost.Core

namespace Server

/-- The head being parsed, in the slots and in the stream. -/
structure HeadOk (cur : Scratch) (r : Stream) : Prop where
  headers : cur.headers = r.headers
  target : cur.targetBuf.getD cur.target = r.target
  pieces : cur.target = [] → cur.targetBuf = none

/-- An unfinished context owns the slots: what it has been given and what is buffered make up what
has arrived of its body. -/
structure Active (s : Server) (k : Nat) (c : Ctx) (m : Msg) : Prop where
  current : s.conn.ctx = some k
  body : c.got ++ s.conn.bodyBuf = m.body
  eom : s.conn.bodyEom = m.complete
  deferred : c.phase = .deferred → c.started = false ∧ s.conn.tracked = true ∧
    s.conn.deferred = some k ∧ ∃ rest, s.feed = some (none, rest)
  running : c.phase = .running → s.conn.tracked = false ∧ s.conn.deferred = none ∧
    ∀ who rest, s.feed = some (who, rest) → who = some k

/-- Context `k` against request `k`. -/
structure Pair (s : Server) (k : Nat) (c : Ctx) (m : Msg) : Prop where
  request : c.request = m.request
  given : c.got <+: m.body
  eom : c.sawEom = true → c.got = m.body ∧ m.complete = true
  closes : c.started = true → c.keepAlive = false → c.closes = true
  finished : c.phase = .finished → c.started = true
  active : c.phase ≠ .finished → Active s k c m

/-- The slots of the connection against its contexts and its requests. -/
structure Ok (s : Server) : Prop where
  valid : valid s.stream.stage s.pending = true
  ordered : s.stream.Ordered
  head : s.stream.stage = .head → HeadOk s.conn.cur s.stream
  fits : s.conn.cur.oversize = false ∧ s.conn.bodyTooLarge = none
  length : s.ctxs.length = s.stream.msgs.length
  pairs : ∀ (k : Nat) (c : Ctx) (m : Msg), s.ctxs[k]? = some c →
    s.stream.msgs[k]? = some m → Pair s k c m
  current : ∀ k, s.conn.ctx = some k → k + 1 = s.ctxs.length
  inBody : s.stream.stage = .body → s.conn.ctx.isSome = true
  slot : ∀ k, s.conn.deferred = some k → ∃ c, s.ctxs[k]? = some c ∧ c.phase = .deferred
  driven : s.conn.isOpen = true → s.conn.tracked = false → ∃ k, s.isRunning k = true
  selector : ∀ rest, s.feed = some (none, rest) → s.conn.tracked = true
  worker : ∀ i rest, s.feed = some (some i, rest) → s.isRunning i = true
  started : ∀ (k : Nat) (c : Ctx), s.conn.ctx = some k → s.ctxs[k]? = some c → c.started = true →
    s.conn.responseStarted = true
  rolled : s.conn.messageComplete = true →
    s.stream.stage ≠ .body ∨ s.conn.closeAfterResponse = true
  closing : s.conn.closeAfterResponse = true → ∃ c ∈ s.ctxs, c.closes = true
  closed : s.conn.isOpen = false → s.gone = true ∨ ∃ c ∈ s.ctxs, c.closes = true
  answers : ∃ n, s.answers = (List.range n).map Answer.of ∧ n ≤ s.ctxs.length ∧
    ∀ (k : Nat) (c : Ctx), s.ctxs[k]? = some c → (c.started = true ↔ k < n)

variable {max : Nat} {s s' : Server}

theorem ok_start {wire : List Callback} (h : Httptools.valid .idle wire = true) :
    Ok (start wire) where
  valid := h
  ordered := ⟨fun k m hm => (by cases hm), fun hs => (by cases hs)⟩
  head hs := by cases hs
  fits := ⟨rfl, rfl⟩
  length := rfl
  pairs k c m hc := by cases hc
  current k hk := by cases hk
  inBody hs := by cases hs
  slot k hk := by cases hk
  driven _ ht := by cases ht
  selector rest hf := by cases hf
  worker i rest hf := by cases hf
  started k c hk := by cases hk
  rolled hm := by cases hm
  closing hc := by cases hc
  closed hc := by cases hc
  answers := ⟨0, rfl, Nat.le_refl 0, fun k c hc => (by cases hc)⟩

namespace Ok

/-- The request of a context. -/
theorem msg (hi : Ok s) {k : Nat} {c : Ctx} (hc : s.ctxs[k]? = some c) :
    ∃ m, s.stream.msgs[k]? = some m ∧ Pair s k c m := by
  have hlt : k < s.stream.msgs.length := by
    rw [← hi.length]
    exact (List.getElem?_eq_some_iff.1 hc).1
  exact ⟨_, List.getElem?_eq_getElem hlt, hi.pairs k c _ hc (List.getElem?_eq_getElem hlt)⟩

/-- An unfinished context is the last one and owns the slots. -/
theorem unfinished (hi : Ok s) {k : Nat} {c : Ctx} (hc : s.ctxs[k]? = some c)
    (hp : c.phase ≠ .finished) : s.conn.ctx = some k ∧ k + 1 = s.ctxs.length := by
  obtain ⟨m, -, hpair⟩ := hi.msg hc
  have hk := (hpair.active hp).current
  exact ⟨hk, hi.current k hk⟩

/-- All contexts but the current one are finished. -/
theorem others (hi : Ok s) {i k : Nat} {c : Ctx} (hcur : s.conn.ctx = some i) (hne : k ≠ i)
    (hc : s.ctxs[k]? = some c) : c.phase = .finished := by
  by_contra hp
  have hk := (hi.unfinished hc hp).1
  rw [hcur] at hk
  exact hne (Option.some.inj hk).symm

end Ok

theorem Pair.of_finished {k : Nat} {c : Ctx} {m : Msg} (h : Pair s k c m)
    (hp : c.phase = .finished) : Pair s' k c m :=
  { h with active := fun hne => absurd hp hne }

namespace Ok

/-! ### Steps of the selector thread -/

/-- Between two feeds of the selector thread all contexts are finished. -/
theorem all_finished (hi : Ok s) (ht : s.conn.tracked = true) (hf : s.feed = none) {k : Nat}
    {c : Ctx} (hc : s.ctxs[k]? = some c) : c.phase = .finished := by
  obtain ⟨m, -, hpair⟩ := hi.msg hc
  cases hp : c.phase with
  | deferred =>
    obtain ⟨-, -, -, rest, hfeed⟩ := (hpair.active (by simp [hp])).deferred hp
    cases hf.symm.trans hfeed
  | running =>
    have huntracked := ((hpair.active (by simp [hp])).running hp).1
    cases ht.symm.trans huntracked
  | finished => rfl

theorem recv (hi : Ok s) {n : Nat} (h : s.recv n = some s') : Ok s' := by
  obtain ⟨⟨ht, hm, hf, hn⟩, ⟨⟩⟩ := Option.ite_none_right_eq_some.1 h
  exact { hi with
    valid := by
      have hv := hi.valid
      simp only [pending, hf] at hv
      simpa [pending] using hv
    pairs := fun k c m hc hm => (hi.pairs k c m hc hm).of_finished (hi.all_finished ht hf hc)
    selector := fun _ _ => ht
    worker := fun i rest hfeed => (by cases hfeed) }

theorem fin (hi : Ok s) (h : s.fin = some s') : Ok s' := by
  obtain ⟨⟨ht, hm, hf, hw⟩, ⟨⟩⟩ := Option.ite_none_right_eq_some.1 h
  exact { hi with
    pairs := fun k c m hc hm => (hi.pairs k c m hc hm).of_finished (hi.all_finished ht hf hc)
    driven := fun hopen => (by cases hopen)
    selector := fun rest hfeed => (by cases hf.symm.trans hfeed)
    closed := fun _ => .inl rfl }

theorem roll (hi : Ok s) (h : s.roll = some s') : Ok s' := by
  obtain ⟨⟨ht, hm, hf⟩, h⟩ := Option.ite_none_right_eq_some.1 h
  -- every request has been answered, so the slots may be reused
  have hpairs : ∀ {r : Server}, ∀ (k : Nat) (c : Ctx) (m : Msg), s.ctxs[k]? = some c →
      s.stream.msgs[k]? = some m → Pair r k c m :=
    fun k c m hc hm => (hi.pairs k c m hc hm).of_finished (hi.all_finished ht hf hc)
  split at h
  · cases h
    exact hi
  · rename_i k hk
    split at h
    · rename_i hclose
      cases h
      refine { hi with
        pairs := hpairs
        driven := fun hopen => (by cases hopen)
        selector := fun rest hfeed => (by cases hf.symm.trans hfeed)
        closed := fun _ => .inr ?_ }
      -- `_loop` closes because a header or the peer asked for it
      rw [Bool.or_eq_true] at hclose
      rcases hclose with hclose | hclose
      · exact hi.closing hclose
      · rw [Option.any_eq_true] at hclose
        obtain ⟨c, hc, hka⟩ := hclose
        obtain ⟨m, -, hpair⟩ := hi.msg hc
        have hstarted := hpair.finished (hi.all_finished ht hf hc)
        exact ⟨c, List.mem_of_getElem? hc, hpair.closes hstarted (by simpa using hka)⟩
    -- the roll-over: no request is in the slots any more
    · rename_i hopen
      cases h
      rw [Bool.not_eq_true, Bool.or_eq_false_iff] at hopen
      refine { hi with
        pairs := hpairs
        current := fun j hj => (by cases hj)
        inBody := fun hs => ?_
        slot := fun j hj => (by cases hj)
        started := fun j c hj => (by cases hj)
        rolled := fun hmc => (by cases hmc)
        closing := fun hcl => (by cases hcl) }
      rcases hi.rolled hm with hne | hcl
      · exact absurd hs hne
      · cases hopen.1.symm.trans hcl

/-! ### Steps of a worker -/

section Worker

variable {i : Nat} {c : Ctx}

/-- The context of a running worker owns the slots of an untracked connection. -/
theorem running (hi : Ok s) (hc : s.ctxs[i]? = some c) (hp : c.phase = .running) :
    ∃ m, s.stream.msgs[i]? = some m ∧ Pair s i c m ∧ Active s i c m := by
  obtain ⟨m, hm, hpair⟩ := hi.msg hc
  exact ⟨m, hm, hpair, hpair.active (by simp [hp])⟩

/-- Only the pair of the current context has to be looked at when its context changes. -/
theorem pairs_modify (hi : Ok s) {f : Ctx → Ctx} (hcur : s.conn.ctx = some i)
    (hctxs : s'.ctxs = s.ctxs.modify i f) (hmsgs : s'.stream.msgs = s.stream.msgs)
    (hnew : ∀ (c : Ctx) (m : Msg), s.ctxs[i]? = some c → s.stream.msgs[i]? = some m →
      Pair s' i (f c) m) :
    ∀ (k : Nat) (c : Ctx) (m : Msg), s'.ctxs[k]? = some c → s'.stream.msgs[k]? = some m →
      Pair s' k c m := by
  intro k c m hc hm
  rw [hctxs] at hc
  rw [hmsgs] at hm
  obtain ⟨c₀, hc₀, rfl⟩ := getElem?_modify_iff.1 hc
  by_cases hk : i = k
  · subst hk
    rw [if_pos rfl]
    exact hnew c₀ m hc₀ hm
  · rw [if_neg hk]
    exact (hi.pairs k c₀ m hc₀ hm).of_finished (hi.others hcur (Ne.symm hk) hc₀)

/-- A worker inside `receive`: its context and the buffer change, and the feed may become its
own. -/
theorem work (hi : Ok s) (hc : s.ctxs[i]? = some c) (hp : c.phase = .running) (f : Ctx → Ctx)
    (buf : Bytes) (feed : Option (Option Nat × List Callback)) (wire : List Callback)
    (hf : ∀ d, (f d).phase = d.phase ∧ (f d).started = d.started ∧ (f d).closes = d.closes ∧
      (f d).keepAlive = d.keepAlive ∧ (f d).request = d.request)
    (hpending : (feed.map (·.2)).getD [] ++ wire = s.pending)
    (hfeed : ∀ who rest, feed = some (who, rest) → who = some i)
    (hgiven : ∀ m, s.stream.msgs[i]? = some m → Pair s i c m → (f c).got ++ buf = m.body ∧
      ((f c).sawEom = true → (f c).got = m.body ∧ m.complete = true)) :
    Ok { s with
      ctxs := s.ctxs.modify i f, conn := { s.conn with bodyBuf := buf }
      feed := feed, wire := wire } := by
  obtain ⟨m, hm, hpair, hact⟩ := hi.running hc hp
  -- The phase is not changed, so the same workers run as before.
  have hrun : ∀ k, s.isRunning k = true →
      isRunning { s with
        ctxs := s.ctxs.modify i f, conn := { s.conn with bodyBuf := buf }
        feed := feed, wire := wire } k = true := by
    intro k hk
    obtain ⟨d, hd, hdp⟩ := isRunning_iff.1 hk
    refine isRunning_iff.2 ⟨_, getElem?_modify_iff.2 ⟨d, hd, rfl⟩, ?_⟩
    split
    · exact (hf d).1.trans hdp
    · exact hdp
  have hrunning := hact.running hp
  obtain ⟨n, hn, hle, hstarted⟩ := hi.answers
  refine { hi with
    valid := ?_, length := ?_, pairs := ?_, current := ?_, slot := ?_, driven := ?_, selector := ?_
    worker := ?_, started := ?_, closing := ?_, closed := ?_, answers := ⟨n, hn, ?_, ?_⟩ }
  · simp only [pending] at hpending ⊢
    rw [hpending]
    exact hi.valid
  · simpa using hi.length
  · refine hi.pairs_modify hact.current rfl rfl ?_
    intro d m' hd hm'
    cases hc.symm.trans hd
    cases hm.symm.trans hm'
    obtain ⟨hgot, heom⟩ := hgiven m hm hpair
    obtain ⟨hfp, hfs, hfc, hfk, hfr⟩ := hf c
    exact {
      request := hfr.trans hpair.request
      given := ⟨_, hgot⟩
      eom := heom
      closes := by
        rw [hfs, hfk, hfc]
        exact hpair.closes
      finished := by
        rw [hfp, hfs]
        exact hpair.finished
      active := fun _ => {
        current := hact.current
        body := hgot
        eom := hact.eom
        deferred := fun hd' => by
          rw [hfp, hp] at hd'
          cases hd'
        running := fun _ => ⟨hrunning.1, hrunning.2.1, hfeed⟩ } }
  · simpa using hi.current
  · intro k hk
    cases hrunning.2.1.symm.trans hk
  · intro hopen ht
    obtain ⟨k, hk⟩ := hi.driven hopen ht
    exact ⟨k, hrun k hk⟩
  · intro rest hr
    cases hfeed none rest hr
  · intro j rest hr
    cases hfeed (some j) rest hr
    exact hrun i (isRunning_iff.2 ⟨c, hc, hp⟩)
  · intro k d hk hd hds
    obtain ⟨d₀, hd₀, rfl⟩ := getElem?_modify_iff.1 hd
    refine hi.started k d₀ hk hd₀ ?_
    split at hds
    · exact (hf d₀).2.1.symm.trans hds
    · exact hds
  · intro hcl
    exact exists_mem_modify (fun d hd => (hf d).2.2.1.trans hd) (hi.closing hcl)
  · intro hcl
    exact (hi.closed hcl).imp_right (exists_mem_modify fun d hd => (hf d).2.2.1.trans hd)
  · simpa using hle
  · intro k d hd
    obtain ⟨d₀, hd₀, rfl⟩ := getElem?_modify_iff.1 hd
    rw [← hstarted k d₀ hd₀]
    split
    · rw [(hf d₀).2.1]
    · exact Iff.rfl

theorem receive (hi : Ok s) {n : Nat} (h : s.receive i n = some s') : Ok s' := by
  obtain ⟨⟨hrun, hf, hbuf, heom, hn⟩, ⟨⟩⟩ := Option.ite_none_right_eq_some.1 h
  obtain ⟨c, hc, hp⟩ := isRunning_iff.1 hrun
  refine hi.work hc hp sendContinue s.conn.bodyBuf (some (some i, s.wire.take n)) (s.wire.drop n)
    (fun d => ⟨rfl, rfl, rfl, rfl, rfl⟩) ?_ ?_ ?_
  · simp [pending, hf]
  · rintro who rest ⟨⟩
    rfl
  · intro m hm hpair
    exact ⟨(hpair.active (by simp [hp])).body, hpair.eom⟩

theorem take (hi : Ok s) {size : Nat} (h : s.take i size = some s') : Ok s' := by
  obtain ⟨⟨hrun, hf, hbuf⟩, ⟨⟩⟩ := Option.ite_none_right_eq_some.1 h
  obtain ⟨c, hc, hp⟩ := isRunning_iff.1 hrun
  refine hi.work hc hp (fun c => { sendContinue c with got := c.got ++ s.conn.bodyBuf.take size })
    (s.conn.bodyBuf.drop size) s.feed s.wire (fun d => ⟨rfl, rfl, rfl, rfl, rfl⟩) rfl ?_ ?_
  · intro who rest hr
    cases hf.symm.trans hr
  · intro m hm hpair
    have hbody := (hpair.active (by simp [hp])).body
    refine ⟨?_, fun hsaw => ?_⟩
    · simpa using hbody
    · -- After `b""` nothing is buffered any more.
      obtain ⟨hgot, hcomplete⟩ := hpair.eom hsaw
      rw [hgot] at hbody
      exact absurd (List.self_eq_append_right.1 hbody.symm) hbuf

theorem eof (hi : Ok s) (h : s.eof i = some s') : Ok s' := by
  obtain ⟨⟨hrun, hf, hbuf, heom⟩, ⟨⟩⟩ := Option.ite_none_right_eq_some.1 h
  obtain ⟨c, hc, hp⟩ := isRunning_iff.1 hrun
  refine hi.work hc hp (fun c => { sendContinue c with sawEom := true }) s.conn.bodyBuf
    s.feed s.wire (fun d => ⟨rfl, rfl, rfl, rfl, rfl⟩) rfl ?_ ?_
  · intro who rest hr
    cases hf.symm.trans hr
  · intro m hm hpair
    have hact := hpair.active (by simp [hp])
    refine ⟨hact.body, fun _ => ⟨?_, hact.eom.symm.trans heom⟩⟩
    have hbody := hact.body
    rw [hbuf, List.append_nil] at hbody
    exact hbody

/-- The contexts started so far are the first ones, so the next answer is that of the current
one. -/
theorem answers_length (hi : Ok s) (hc : s.ctxs[i]? = some c) (hp : c.phase ≠ .finished)
    (hs : c.started = false) : s.answers = (List.range i).map Answer.of ∧
      ∀ (k : Nat) (d : Ctx), s.ctxs[k]? = some d → (d.started = true ↔ k < i) := by
  obtain ⟨n, hn, hle, hstarted⟩ := hi.answers
  obtain ⟨hcur, hlast⟩ := hi.unfinished hc hp
  have hni : n ≤ i := by
    by_contra hlt
    have := (hstarted i c hc).2 (by omega)
    cases hs.symm.trans this
  have hin : i ≤ n := by
    by_contra hlt
    have hn' : n < s.ctxs.length := by omega
    have hd := List.getElem?_eq_getElem hn'
    obtain ⟨m, -, hpair⟩ := hi.msg hd
    have hfin := hpair.finished (hi.others hcur (by omega) hd)
    have := (hstarted n _ hd).1 hfin
    omega
  obtain rfl : n = i := by omega
  exact ⟨hn, hstarted⟩

theorem startResponse (hi : Ok s) (hc : s.ctxs[i]? = some c) (hp : c.phase = .running)
    (hs : c.started = false) (hasClose : Bool) : Ok (s.startResponse i hasClose) := by
  obtain ⟨m, hm, hpair, hact⟩ := hi.running hc hp
  obtain ⟨hanswers, hstarted⟩ := hi.answers_length hc (by simp [hp]) hs
  have hlast := hi.current i hact.current
  have hmod : ∀ {f : Ctx → Ctx} {k : Nat} {d : Ctx}, (s.ctxs.modify i f)[k]? = some d →
      ∃ d₀, s.ctxs[k]? = some d₀ ∧ (if i = k then f d₀ else d₀) = d :=
    fun h => getElem?_modify_iff.1 h
  unfold Server.startResponse
  rw [hc]
  refine { hi with
    length := ?_, pairs := ?_, current := ?_, slot := ?_, driven := ?_, worker := ?_
    started := fun _ _ _ _ _ => rfl, rolled := ?_, closing := ?_, closed := ?_
    -- This answer is the next one: the first `i` are those of the contexts before it.
    answers := ⟨i + 1, ?_, ?_, ?_⟩ }
  · simpa [modifyCtx] using hi.length
  · refine hi.pairs_modify hact.current rfl rfl ?_
    intro d m' hd hm'
    cases hc.symm.trans hd
    cases hm.symm.trans hm'
    exact {
      request := hpair.request
      given := hpair.given
      eom := hpair.eom
      closes := fun _ hka => by
        have hka' : c.keepAlive = false := hka
        simp [hka']
      finished := fun _ => rfl
      active := fun _ => {
        current := hact.current
        body := hact.body
        eom := hact.eom
        deferred := fun hd' => by cases hp.symm.trans hd'
        running := hact.running } }
  · simpa [modifyCtx] using hi.current
  · intro k hk
    cases (hact.running hp).2.1.symm.trans hk
  · intro _ _
    exact ⟨i, isRunning_iff.2 ⟨_, getElem?_modify_iff.2 ⟨c, hc, rfl⟩, by simpa using hp⟩⟩
  · intro j rest hf
    cases (hact.running hp).2.2 _ _ hf
    exact isRunning_iff.2 ⟨_, getElem?_modify_iff.2 ⟨c, hc, rfl⟩, by simpa using hp⟩
  · intro hmc
    refine (hi.rolled hmc).imp_right fun hcl => ?_
    simp [hcl]
  · intro hcl
    rcases Bool.or_eq_true_iff.1 hcl with hold | hnew
    · exact exists_mem_modify (fun d hd => by simp [hd]) (hi.closing hold)
    · refine ⟨_, List.mem_of_getElem? (getElem?_modify_iff.2 ⟨c, hc, rfl⟩), ?_⟩
      simpa using Or.inr hnew
  · intro hcl
    exact (hi.closed hcl).imp_right (exists_mem_modify fun d hd => by simp [hd])
  · rw [List.range_succ, List.map_append, ← hanswers]
    rfl
  · simp only [modifyCtx, List.length_modify]
    omega
  · intro k d hd
    obtain ⟨d₀, hd₀, rfl⟩ := hmod hd
    by_cases hk : i = k
    · subst hk
      simp
    · rw [if_neg hk, hstarted k d₀ hd₀]
      have hlt := (List.getElem?_eq_some_iff.1 hd₀).1
      omega

theorem finishResponse (hi : Ok s) (hc : s.ctxs[i]? = some c) (hp : c.phase = .running)
    (hs : c.started = true) (hf : s.isFeeding i = false) : Ok (s.finishResponse i) := by
  obtain ⟨m, hm, hpair, hact⟩ := hi.running hc hp
  obtain ⟨huntracked, hslot, hfeeder⟩ := hact.running hp
  -- Only this worker could have been feeding, and it is not.
  have hnone : s.feed = none := by
    cases hfeed : s.feed with
    | none => rfl
    | some f =>
      have hwho := hfeeder f.1 f.2 hfeed
      simp [isFeeding, hfeed, hwho] at hf
  obtain ⟨n, hn, hle, hstarted⟩ := hi.answers
  unfold Server.finishResponse
  refine { hi with
    length := ?_, pairs := ?_, current := ?_, slot := ?_, driven := ?_, selector := fun _ _ => rfl
    worker := ?_, started := ?_, closing := ?_, closed := ?_, answers := ⟨n, hn, ?_, ?_⟩ }
  · simpa [modifyCtx] using hi.length
  · refine hi.pairs_modify hact.current rfl rfl ?_
    intro d m' hd hm'
    cases hc.symm.trans hd
    cases hm.symm.trans hm'
    exact {
      request := hpair.request
      given := hpair.given
      eom := hpair.eom
      closes := hpair.closes
      finished := fun _ => hs
      active := fun hne => absurd rfl hne }
  · simpa [modifyCtx] using hi.current
  · intro k hk
    cases hslot.symm.trans hk
  · intro _ ht
    cases ht
  · intro j rest hr
    cases hnone.symm.trans hr
  · intro k d hk hd hds
    obtain ⟨d₀, hd₀, rfl⟩ := getElem?_modify_iff.1 hd
    refine hi.started k d₀ hk hd₀ ?_
    split at hds
    · exact hds
    · exact hds
  · intro hcl
    exact exists_mem_modify (fun d hd => hd) (hi.closing hcl)
  · intro hcl
    exact (hi.closed hcl).imp_right (exists_mem_modify fun d hd => hd)
  · simpa [modifyCtx] using hle
  · intro k d hd
    obtain ⟨d₀, hd₀, rfl⟩ := getElem?_modify_iff.1 hd
    rw [← hstarted k d₀ hd₀]
    split
    · exact Iff.rfl
    · exact Iff.rfl

end Worker

/-! ### The end of a feed -/

theorem feedEnd (hi : Ok s) (h : s.feedEnd = some s') : Ok s' := by
  unfold Server.feedEnd at h
  split at h
  · rename_i who hfeed
    rw [hi.fits.2] at h
    split at h
    · rename_i n hn
      cases hn
    · have hvalid : Httptools.valid s.stream.stage s.wire = true := by
        have hv := hi.valid
        rw [pending, hfeed] at hv
        exact hv
      split at h
      · rename_i k hk
        cases h
        -- The deferred context starts on its worker.
        obtain ⟨c, hc, hp⟩ := hi.slot k hk
        obtain ⟨m, hm, hpair⟩ := hi.msg hc
        have hact := hpair.active (by simp [hp])
        obtain ⟨n, hn, hle, hstarted⟩ := hi.answers
        refine { hi with
          valid := hvalid, length := ?_, pairs := ?_, current := ?_
          slot := fun j hj => (by cases hj), driven := ?_
          selector := fun rest hr => (by cases hr), worker := fun j rest hr => (by cases hr)
          started := ?_, closing := ?_, closed := ?_, answers := ⟨n, hn, ?_, ?_⟩ }
        · simpa [modifyCtx] using hi.length
        · refine hi.pairs_modify hact.current rfl rfl ?_
          intro d m' hd hm'
          cases hc.symm.trans hd
          cases hm.symm.trans hm'
          exact {
            request := hpair.request
            given := hpair.given
            eom := hpair.eom
            closes := hpair.closes
            finished := fun hfin => by cases hfin
            active := fun _ => {
              current := hact.current
              body := hact.body
              eom := hact.eom
              deferred := fun hd' => by cases hd'
              running := fun _ => ⟨rfl, rfl, fun who rest hr => by cases hr⟩ } }
        · simpa [modifyCtx] using hi.current
        · intro _ _
          exact ⟨k, isRunning_iff.2 ⟨_, getElem?_modify_iff.2 ⟨c, hc, rfl⟩, by simp⟩⟩
        · intro j d hj hd hds
          obtain ⟨d₀, hd₀, rfl⟩ := getElem?_modify_iff.1 hd
          refine hi.started j d₀ hj hd₀ ?_
          split at hds
          · exact hds
          · exact hds
        · intro hcl
          exact exists_mem_modify (fun d hd => hd) (hi.closing hcl)
        · intro hcl
          exact (hi.closed hcl).imp_right (exists_mem_modify fun d hd => hd)
        · simpa [modifyCtx] using hle
        · intro j d hd
          obtain ⟨d₀, hd₀, rfl⟩ := getElem?_modify_iff.1 hd
          rw [← hstarted j d₀ hd₀]
          split
          · exact Iff.rfl
          · exact Iff.rfl
      · rename_i hslot
        cases h
        refine { hi with
          valid := hvalid, pairs := ?_, selector := fun rest hr => (by cases hr)
          worker := fun j rest hr => (by cases hr) }
        intro k c m hc hm
        have hpair := hi.pairs k c m hc hm
        refine { hpair with active := fun hp => ?_ }
        have hact := hpair.active hp
        refine { hact with
          deferred := fun hd => ?_
          running := fun hr => ⟨(hact.running hr).1, (hact.running hr).2.1, fun who rest hf => ?_⟩ }
        · cases hslot.symm.trans (hact.deferred hd).2.2.1
        · cases hf
  · cases h

end Ok

end Server

end LocalPost.Http.Httptools
