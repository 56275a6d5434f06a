import LocalPost.Http.H11.Receive
import LocalPost.Http.Httptools.Server

/-!
# The body limit of the httptools backend

`on_body` checks a piece against what is buffered at the moment, and `receive` empties the buffer. A
handler that reads a long chunked body as it arrives is given more than the limit
(`buffer_drained_between_pieces`). And a worker that receives behind the head of a later request is
told that the body of that one is too large, in place of its own handler
(`raised_to_first_handler`). `WithinLimit` is the condition on a body callback and on the end of a
worker's feed, and with it `Capped` holds in every run; `body_limit` states both backends side by
side.

`Counted` needs no order between the requests: it also covers runs in which the slots have gone to a
later request too early.
-/

set_option autoImplicit false

namespace LocalPost.Http.Httptools

open LocalPost.Core

namespace Server

/-- A handler gets at most `max` bytes, and when it reaches the end of a larger body, `BodyTooLarge`
was raised to it before. -/
def Capped (max : Nat) (s : Server) : Prop :=
  ∀ (k : Nat) (c : Ctx), s.ctxs[k]? = some c → c.got.length ≤ max ∧
    (c.sawEom = true → ∀ m, s.stream.msgs[c.msg]? = some m → m.body.length ≤ max ∨ c.raised = true)

/-- A piece of a body that is buffered leaves every unfinished handler within the limit with all
that it can get, and a piece that is not refused leaves the request itself within the limit. A
worker whose feed ends with `BodyTooLarge` is that of the request in the slots. -/
def WithinLimit (max : Nat) (s : Server) : Act → Prop
  | .fire _ =>
    match s.feed with
    | some (_, .body data :: _) =>
      (∀ c ∈ s.ctxs, c.phase ≠ .finished → s.conn.drops = false →
        s.conn.bodyBuf.length + data.length ≤ max →
        c.got.length + s.conn.bodyBuf.length + data.length ≤ max) ∧
      (∀ c ∈ s.ctxs, c.phase ≠ .finished →
        s.conn.drops = true ∨ s.conn.bodyBuf.length + data.length ≤ max →
        ∀ m ∈ s.stream.msgs[c.msg]?, m.body.length + data.length ≤ max)
    | _ => True
  | .feedEnd =>
    match s.feed with
    | some (some i, []) => s.conn.bodyTooLarge.isSome = true → s.conn.ctx = some i
    | _ => True
  | _ => True

instance (max : Nat) (s : Server) : ∀ a, Decidable (s.WithinLimit max a)
  | .fire _ =>
    match hfeed : s.feed with
    | some (_, .body data :: _) =>
      decidable_of_iff
        ((∀ c ∈ s.ctxs, c.phase ≠ .finished → s.conn.drops = false →
            s.conn.bodyBuf.length + data.length ≤ max →
            c.got.length + s.conn.bodyBuf.length + data.length ≤ max) ∧
          (∀ c ∈ s.ctxs, c.phase ≠ .finished →
            s.conn.drops = true ∨ s.conn.bodyBuf.length + data.length ≤ max →
            ∀ m ∈ s.stream.msgs[c.msg]?, m.body.length + data.length ≤ max))
        (by simp [WithinLimit, hfeed])
    | none => .isTrue (by simp [WithinLimit, hfeed])
    | some (_, []) => .isTrue (by simp [WithinLimit, hfeed])
    | some (_, .messageBegin :: _) => .isTrue (by simp [WithinLimit, hfeed])
    | some (_, .url _ :: _) => .isTrue (by simp [WithinLimit, hfeed])
    | some (_, .header _ _ :: _) => .isTrue (by simp [WithinLimit, hfeed])
    | some (_, .headersComplete _ _ _ :: _) => .isTrue (by simp [WithinLimit, hfeed])
    | some (_, .messageComplete :: _) => .isTrue (by simp [WithinLimit, hfeed])
  | .recv _ => .isTrue trivial
  | .fin => .isTrue trivial
  | .roll => .isTrue trivial
  | .feedEnd =>
    match hfeed : s.feed with
    | some (some i, []) =>
      decidable_of_iff (s.conn.bodyTooLarge.isSome = true → s.conn.ctx = some i)
        (by simp [WithinLimit, hfeed])
    | none => .isTrue (by simp [WithinLimit, hfeed])
    | some (none, _) => .isTrue (by simp [WithinLimit, hfeed])
    | some (some _, _ :: _) => .isTrue (by simp [WithinLimit, hfeed])
  | .receive _ _ => .isTrue trivial
  | .take _ _ => .isTrue trivial
  | .eof _ => .isTrue trivial
  | .startResponse _ _ => .isTrue trivial
  | .finishResponse _ => .isTrue trivial

/-- The limit was found exceeded for context `k`: that was raised to its handler, or the connection
was closed for it, or the flag is set, and then a feed of a worker that ends with this request in
the slots is its own. -/
def Over (s : Server) (k : Nat) (c : Ctx) : Prop :=
  c.raised = true ∨ s.conn.isOpen = false ∨ (s.conn.bodyTooLarge.isSome = true ∧
    ∀ i rest, s.feed = some (some i, rest) → s.conn.ctx = some i → k = i)

/-- An unfinished handler can get at most `max` bytes with what is buffered, and its request is
within the limit unless that was found exceeded. -/
structure Counted (max : Nat) (s : Server) : Prop where
  valid : valid s.stream.stage s.pending = true
  ordered : s.stream.Ordered
  head : s.stream.stage = .head → s.conn.cur.oversize = false
  msgs : ∀ (k : Nat) (c : Ctx), s.ctxs[k]? = some c → c.msg < s.stream.msgs.length
  current : s.stream.stage = .body → ∀ (k : Nat) (c : Ctx), s.ctxs[k]? = some c →
    c.msg + 1 = s.stream.msgs.length → s.conn.ctx = some k ∧ s.conn.cur.oversize = false
  eom : s.stream.stage = .body → s.conn.cur.oversize = false → s.conn.bodyEom = false
  rolled : s.conn.messageComplete = true → s.stream.stage = .body →
    s.conn.cur.oversize = true ∨ s.conn.closeAfterResponse = true
  flag : s.feed = none → s.conn.bodyTooLarge = none
  worker : ∀ i rest, s.feed = some (some i, rest) → i < s.ctxs.length
  slot : ∀ k, s.conn.deferred = some k → ∃ c, s.ctxs[k]? = some c ∧ c.phase = .deferred
  given : ∀ (k : Nat) (c : Ctx), s.ctxs[k]? = some c → c.got.length ≤ max ∧
    (c.phase ≠ .finished → c.got.length + s.conn.bodyBuf.length ≤ max)
  arrived : ∀ (k : Nat) (c : Ctx), s.ctxs[k]? = some c → c.phase ≠ .finished →
    ∀ m, s.stream.msgs[c.msg]? = some m → m.body.length ≤ max ∨ s.Over k c
  saw : ∀ (k : Nat) (c : Ctx), s.ctxs[k]? = some c → c.sawEom = true →
    (s.stream.stage = .body → c.msg + 1 ≠ s.stream.msgs.length) ∧
      ∀ m, s.stream.msgs[c.msg]? = some m → m.body.length ≤ max ∨ c.raised = true

variable {max : Nat} {s s' : Server}

/-- What is over the limit stays so, with the flags that are never reset. -/
theorem Over.mono {k : Nat} {c d : Ctx} (h : s.Over k c)
    (hraised : c.raised = true → d.raised = true)
    (hopen : s.conn.isOpen = false → s'.conn.isOpen = false)
    (hflag : s.conn.bodyTooLarge.isSome = true → s'.conn.bodyTooLarge.isSome = true)
    (hfeed : ∀ i rest, s'.feed = some (some i, rest) → s'.conn.ctx = some i →
      s.conn.ctx = some i ∧ ∃ rest, s.feed = some (some i, rest)) : s'.Over k d := by
  rcases h with hr | hclosed | ⟨hset, howner⟩
  · exact .inl (hraised hr)
  · exact .inr (.inl (hopen hclosed))
  · refine .inr (.inr ⟨hflag hset, fun i rest hf hctx => ?_⟩)
    obtain ⟨hold, rest', hf'⟩ := hfeed i rest hf hctx
    exact howner i rest' hf' hold

/-- What was raised to a handler stays so when a context changes. -/
theorem raised_modify {i k : Nat} {f : Ctx → Ctx} (hf : ∀ c, c.raised = true → (f c).raised = true)
    {c d : Ctx}
    (hc : s.ctxs[k]? = some c) (hd : (s.ctxs.modify i f)[k]? = some d) (hr : c.raised = true) :
    d.raised = true := by
  obtain ⟨c₀, hc₀, rfl⟩ := getElem?_modify_iff.1 hd
  cases hc.symm.trans hc₀
  split
  · exact hf c hr
  · exact hr

/-- A context changes, in the same feed or behind the end of one. -/
theorem Over.modify {i k : Nat} {f : Ctx → Ctx} {c d : Ctx} (h : s.Over k c)
    (hc : s.ctxs[k]? = some c) (hd : s'.ctxs[k]? = some d) (hctxs : s'.ctxs = s.ctxs.modify i f)
    (hf : ∀ c, c.raised = true → (f c).raised = true) (hopen : s'.conn.isOpen = s.conn.isOpen)
    (hflag : s'.conn.bodyTooLarge = s.conn.bodyTooLarge) (hctx : s'.conn.ctx = s.conn.ctx)
    (hfeed : s'.feed = s.feed ∨ s'.feed = none) : s'.Over k d := by
  rw [hctxs] at hd
  refine h.mono (raised_modify hf hc hd) hopen.trans (by rw [hflag]; exact id)
    fun i rest hr hslot => ?_
  rcases hfeed with hsame | hnone
  · exact ⟨hctx.symm.trans hslot, rest, hsame.symm.trans hr⟩
  · cases hnone.symm.trans hr

namespace Counted

/-- Between two feeds the flag is not set. -/
theorem over_idle (hi : Counted max s) (hf : s.feed = none) {k : Nat} {c : Ctx} (h : s.Over k c) :
    c.raised = true ∨ s.conn.isOpen = false := by
  rcases h with hr | hclosed | ⟨hset, -⟩
  · exact .inl hr
  · exact .inr hclosed
  · rw [hi.flag hf] at hset
    cases hset

/-- A step behind a feed keeps what was found exceeded. -/
theorem over_kept (hi : Counted max s) (hf : s.feed = none)
    (hopen : s.conn.isOpen = false → s'.conn.isOpen = false) {i : Nat} {f : Ctx → Ctx}
    (hraised : ∀ c, c.raised = true → (f c).raised = true) (hctxs : s'.ctxs = s.ctxs.modify i f)
    (k : Nat)
    (c d : Ctx) (hc : s.ctxs[k]? = some c) (hd : s'.ctxs[k]? = some d)
    (h : s.Over k c) : s'.Over k d := by
  rw [hctxs] at hd
  rcases hi.over_idle hf h with hr | hclosed
  · exact .inl (raised_modify hraised hc hd hr)
  · exact .inr (.inl (hopen hclosed))

/-- Before the first callback nothing is buffered. -/
theorem start {wire : List Callback} (h : Httptools.valid .idle wire = true) :
    Counted max (start wire) where
  valid := h
  ordered := ⟨fun k m hm => (by cases hm), fun hs => (by cases hs)⟩
  head hs := by cases hs
  msgs k c hc := by cases hc
  current hs := by cases hs
  eom hs := by cases hs
  rolled hm := by cases hm
  flag _ := rfl
  worker i rest hf := by cases hf
  slot k hk := by cases hk
  given k c hc := by cases hc
  arrived k c hc := by cases hc
  saw k c hc := by cases hc

theorem capped (hi : Counted max s) : s.Capped max :=
  fun k c hc => ⟨(hi.given k c hc).1, fun hsaw => (hi.saw k c hc hsaw).2⟩

/-- A step that fires no callback: the slots of the parser stay, contexts change what they have been
given. -/
theorem quiet (hi : Counted max s) (hstream : s'.stream = s.stream)
    (hpending : s'.pending = s.pending)
    (hcur : s'.conn.cur = s.conn.cur) (hctx : s'.conn.ctx = s.conn.ctx)
    (heom : s'.conn.bodyEom = s.conn.bodyEom)
    (hmc : s'.conn.messageComplete = s.conn.messageComplete)
    (hclose : s.conn.closeAfterResponse = true → s'.conn.closeAfterResponse = true)
    (hflag : s'.feed = none → s'.conn.bodyTooLarge = none)
    (hworker : ∀ i rest, s'.feed = some (some i, rest) → i < s'.ctxs.length)
    (hslot : ∀ k, s'.conn.deferred = some k → ∃ c, s'.ctxs[k]? = some c ∧ c.phase = .deferred)
    (hover : ∀ (k : Nat) (c d : Ctx), s.ctxs[k]? = some c → s'.ctxs[k]? = some d → s.Over k c →
      s'.Over k d)
    (hctxs : ∀ (k : Nat) (d : Ctx), s'.ctxs[k]? = some d → ∃ c, s.ctxs[k]? = some c ∧
      d.msg = c.msg ∧ d.got.length ≤ max ∧ (c.raised = true → d.raised = true) ∧
      (d.phase ≠ .finished → c.phase ≠ .finished ∧ d.got.length + s'.conn.bodyBuf.length ≤ max) ∧
      (d.sawEom = true → c.sawEom = true ∨
        (s.stream.stage = .body → c.msg + 1 ≠ s.stream.msgs.length) ∧
          ∀ m, s.stream.msgs[c.msg]? = some m → m.body.length ≤ max ∨ d.raised = true)) :
    Counted max s' := by
  constructor
  · rw [hstream, hpending]
    exact hi.valid
  · rw [hstream]
    exact hi.ordered
  · rw [hstream, hcur]
    exact hi.head
  · intro k d hd
    obtain ⟨c, hc, hmsg, -⟩ := hctxs k d hd
    rw [hstream, hmsg]
    exact hi.msgs k c hc
  · intro hs k d hd
    obtain ⟨c, hc, hmsg, -⟩ := hctxs k d hd
    rw [hstream] at hs ⊢
    rw [hmsg, hctx, hcur]
    exact hi.current hs k c hc
  · rw [hstream, hcur, heom]
    exact hi.eom
  · rw [hstream, hcur, hmc]
    exact fun h hs => (hi.rolled h hs).imp_right hclose
  · exact hflag
  · exact hworker
  · exact hslot
  · intro k d hd
    obtain ⟨c, -, -, hgot, -, hun, -⟩ := hctxs k d hd
    exact ⟨hgot, fun hp => (hun hp).2⟩
  · intro k d hd hp m hm
    obtain ⟨c, hc, hmsg, -, -, hun, -⟩ := hctxs k d hd
    rw [hstream, hmsg] at hm
    exact (hi.arrived k c hc (hun hp).1 m hm).imp_right (hover k c d hc hd)
  · intro k d hd hsaw
    obtain ⟨c, hc, hmsg, -, hraised, -, hsaw'⟩ := hctxs k d hd
    rw [hstream, hmsg]
    -- It had seen the end of its body before, or sees it in this step.
    rcases hsaw' hsaw with hold | hnew
    · obtain ⟨hlast, hle⟩ := hi.saw k c hc hold
      exact ⟨hlast, fun m hm => (hle m hm).imp_right hraised⟩
    · exact hnew

/-- The last hypothesis of `quiet` when the buffer stays and nothing is given to a context. -/
theorem kept (hi : Counted max s) {i : Nat} {f : Ctx → Ctx}
    (hf : ∀ c, (f c).msg = c.msg ∧ (f c).got = c.got ∧ (f c).sawEom = c.sawEom ∧
      (c.raised = true → (f c).raised = true) ∧ ((f c).phase ≠ .finished → c.phase ≠ .finished))
      (k : Nat) (d : Ctx)
    (hd : (s.ctxs.modify i f)[k]? = some d) :
    ∃ c, s.ctxs[k]? = some c ∧ d.msg = c.msg ∧ d.got.length ≤ max ∧
      (c.raised = true → d.raised = true) ∧ (d.phase ≠ .finished → c.phase ≠ .finished ∧
        d.got.length + s.conn.bodyBuf.length ≤ max) ∧
      (d.sawEom = true → c.sawEom = true ∨
        (s.stream.stage = .body → c.msg + 1 ≠ s.stream.msgs.length) ∧
          ∀ m, s.stream.msgs[c.msg]? = some m → m.body.length ≤ max ∨ d.raised = true) := by
  obtain ⟨c, hc, rfl⟩ := getElem?_modify_iff.1 hd
  obtain ⟨hgot, hun⟩ := hi.given k c hc
  obtain ⟨hfm, hfg, hfs, hfr, hfp⟩ := hf c
  refine ⟨c, hc, ?_⟩
  split
  · rw [hfm, hfg, hfs]
    exact ⟨rfl, hgot, hfr, fun hp => ⟨hfp hp, hun (hfp hp)⟩, .inl⟩
  · exact ⟨rfl, hgot, id, fun hp => ⟨hp, hun hp⟩, .inl⟩

/-- The deferred context stays deferred when another one changes. -/
theorem slot_modify (hi : Counted max s) {i : Nat} {f : Ctx → Ctx}
    (hf : ∀ c, s.ctxs[i]? = some c → c.phase = .deferred → (f c).phase = .deferred) (k : Nat)
    (hk : s.conn.deferred = some k) :
    ∃ c, (s.ctxs.modify i f)[k]? = some c ∧ c.phase = .deferred := by
  obtain ⟨c, hc, hp⟩ := hi.slot k hk
  refine ⟨_, getElem?_modify_iff.2 ⟨c, hc, rfl⟩, ?_⟩
  split
  · rename_i hik
    subst hik
    exact hf c hc hp
  · exact hp

/-- A step that leaves the contexts alone keeps what holds of each. -/
theorem kept_id (hi : Counted max s) (k : Nat) (d : Ctx) (hd : s.ctxs[k]? = some d) :
    ∃ c, s.ctxs[k]? = some c ∧ d.msg = c.msg ∧ d.got.length ≤ max ∧
      (c.raised = true → d.raised = true) ∧ (d.phase ≠ .finished → c.phase ≠ .finished ∧
        d.got.length + s.conn.bodyBuf.length ≤ max) ∧
      (d.sawEom = true → c.sawEom = true ∨
        (s.stream.stage = .body → c.msg + 1 ≠ s.stream.msgs.length) ∧
          ∀ m, s.stream.msgs[c.msg]? = some m → m.body.length ≤ max ∨ d.raised = true) := by
  have hid : ∀ c : Ctx, (id c).msg = c.msg ∧ (id c).got = c.got ∧ (id c).sawEom = c.sawEom ∧
      (c.raised = true → (id c).raised = true) ∧ ((id c).phase ≠ .finished → c.phase ≠ .finished) :=
    fun c => ⟨rfl, rfl, rfl, id, fun h => h⟩
  refine hi.kept (i := 0) hid k d ?_
  rw [List.modify_id]
  exact hd

/-! ### Steps that fire no callback -/

theorem recv (hi : Counted max s) {n : Nat} (h : s.recv n = some s') : Counted max s' := by
  obtain ⟨⟨ht, hm, hf, hn⟩, ⟨⟩⟩ := Option.ite_none_right_eq_some.1 h
  refine hi.quiet rfl ?_ rfl rfl rfl rfl id (fun hf' => (by cases hf'))
    (fun i rest hf' => (by cases hf')) hi.slot ?_ hi.kept_id
  · simp [pending, hf]
  · intro k c d hc hd h
    cases hc.symm.trans hd
    exact (hi.over_idle hf h).imp_right .inl

theorem closed (hi : Counted max s) (gone : Bool) :
    Counted max { s with conn := s.conn.close, gone := gone } :=
  hi.quiet rfl rfl rfl rfl rfl rfl id hi.flag hi.worker hi.slot
    (fun _ _ _ _ _ _ => .inr (.inl rfl)) hi.kept_id

theorem roll (hi : Counted max s) (h : s.roll = some s') : Counted max s' := by
  obtain ⟨⟨ht, hm, hf⟩, h⟩ := Option.ite_none_right_eq_some.1 h
  split at h
  · cases h
    exact hi
  · split at h
    · cases h
      exact hi.closed s.gone
    · rename_i hclose
      cases h
      rw [Bool.not_eq_true, Bool.or_eq_false_iff] at hclose
      refine { hi with
        current := fun hs k c hc hlast => ?_
        eom := fun _ _ => rfl
        rolled := fun hmc => (by cases hmc)
        slot := fun k hk => (by cases hk)
        given := fun k c hc => ?_
        arrived := fun k c hc hp m hmsg =>
          (hi.arrived k c hc hp m hmsg).imp_right fun hover =>
            (hi.over_idle hf hover).imp_right .inl }
      · -- Inside a body the message can only be that of a head that was refused.
        rcases hi.rolled hm hs with hover | hca
        · cases (hi.current hs k c hc hlast).2.symm.trans hover
        · cases hclose.1.symm.trans hca
      · exact ⟨(hi.given k c hc).1, fun _ => (hi.given k c hc).1⟩

theorem receive (hi : Counted max s) {i n : Nat} (h : s.receive i n = some s') :
    Counted max s' := by
  obtain ⟨⟨hrun, hf, hbuf, heom, hn⟩, ⟨⟩⟩ := Option.ite_none_right_eq_some.1 h
  refine hi.quiet rfl ?_ rfl rfl rfl rfl id (fun hf' => (by cases hf')) ?_
    (hi.slot_modify fun _ _ h => h) (hi.over_kept hf id (f := sendContinue) (fun _ h => h) rfl)
      (hi.kept fun c => ⟨rfl, rfl, rfl, id, fun h => h⟩)
  · simp [pending, hf]
  · rintro j rest ⟨⟩
    obtain ⟨c, hc, -⟩ := isRunning_iff.1 hrun
    simpa [modifyCtx] using (List.getElem?_eq_some_iff.1 hc).1

/-- Bytes move from the buffer to the context; nobody can get more than before. -/
theorem take (hi : Counted max s) {i size : Nat} (h : s.take i size = some s') :
    Counted max s' := by
  obtain ⟨⟨hrun, hf, hbuf⟩, ⟨⟩⟩ := Option.ite_none_right_eq_some.1 h
  obtain ⟨c, hc, hp⟩ := isRunning_iff.1 hrun
  refine hi.quiet rfl rfl rfl rfl rfl rfl id (fun _ => hi.flag hf)
    (fun j rest hr => (by cases hf.symm.trans hr)) (hi.slot_modify fun _ _ h => h)
    (hi.over_kept hf id
      (f := fun c => { sendContinue c with got := c.got ++ s.conn.bodyBuf.take size })
      (fun _ h => h) rfl) ?_
  intro k d hd
  obtain ⟨c₀, hc₀, rfl⟩ := getElem?_modify_iff.1 hd
  obtain ⟨hgot, hun⟩ := hi.given k c₀ hc₀
  -- what is taken and what stays in the buffer is what was there
  have hsplit : (s.conn.bodyBuf.take size).length + (s.conn.bodyBuf.drop size).length =
      s.conn.bodyBuf.length := by
    rw [← List.length_append, List.take_append_drop]
  refine ⟨c₀, hc₀, ?_⟩
  -- the handler that takes is the one whose bytes are counted
  by_cases hk : i = k
  · subst hk
    cases hc.symm.trans hc₀
    have hle := hun (by simp [hp])
    rw [if_pos rfl]
    simp only [sendContinue, List.length_append]
    exact ⟨trivial, by omega, fun h => h, fun _ => ⟨by simp [hp], by omega⟩, .inl⟩
  · rw [if_neg hk]
    refine ⟨rfl, hgot, id, fun hp' => ⟨hp', ?_⟩, .inl⟩
    have hle := hun hp'
    simp only
    omega

/-- At the end of the message the whole body has arrived, within the limit or found exceeding it. -/
theorem eof (hi : Counted max s) (hopen : s.conn.isOpen = true) {i : Nat} (h : s.eof i = some s') :
    Counted max s' := by
  obtain ⟨⟨hrun, hf, hbuf, heom⟩, ⟨⟩⟩ := Option.ite_none_right_eq_some.1 h
  obtain ⟨c, hc, hp⟩ := isRunning_iff.1 hrun
  refine hi.quiet rfl rfl rfl rfl rfl rfl id hi.flag (fun j rest hr => (by cases hf.symm.trans hr))
    (hi.slot_modify fun _ _ h => h)
    (hi.over_kept hf id (f := fun c => { sendContinue c with sawEom := true })
      (fun _ h => h) rfl) ?_
  intro k d hd
  obtain ⟨c₀, hc₀, rfl⟩ := getElem?_modify_iff.1 hd
  obtain ⟨hgot, hun⟩ := hi.given k c₀ hc₀
  refine ⟨c₀, hc₀, ?_⟩
  -- the handler has read to the end; its message is complete or was refused
  by_cases hk : i = k
  · subst hk
    cases hc.symm.trans hc₀
    rw [if_pos rfl]
    refine ⟨rfl, hgot, id, fun hp' => ⟨hp', hun hp'⟩, fun _ =>
      .inr ⟨fun hs hlast => ?_, fun m hm => ?_⟩⟩
    · have hover := (hi.current hs i c hc hlast).2
      cases heom.symm.trans (hi.eom hs hover)
    · refine (hi.arrived i c hc (by simp [hp]) m hm).imp_right fun hover => ?_
      rcases hi.over_idle hf hover with hr | hclosed
      · exact hr
      · cases hopen.symm.trans hclosed
  · rw [if_neg hk]
    exact ⟨rfl, hgot, id, fun hp' => ⟨hp', hun hp'⟩, .inl⟩

theorem startResponse (hi : Counted max s) (i : Nat) (hasClose : Bool) :
    Counted max (s.startResponse i hasClose) := by
  unfold Server.startResponse
  split
  · exact hi
  · rename_i c hc
    refine hi.quiet rfl rfl rfl rfl rfl rfl (fun hca => ?_) hi.flag ?_
      (hi.slot_modify fun _ _ h => h) (fun k c d hc hd h => ?_)
        (hi.kept fun d => ⟨rfl, rfl, rfl, id, fun h => h⟩)
    · simp only [hca, Bool.true_or]
    · intro j rest hr
      simpa [modifyCtx] using hi.worker j rest hr
    · exact h.modify hc hd rfl (fun _ h => h) rfl rfl rfl (.inl rfl)

theorem finishResponse (hi : Counted max s) {i : Nat} (hrun : s.isRunning i = true) :
    Counted max (s.finishResponse i) := by
  obtain ⟨c, hc, hp⟩ := isRunning_iff.1 hrun
  refine hi.quiet rfl rfl rfl rfl rfl rfl id hi.flag ?_ (hi.slot_modify fun d hd hdp => ?_)
    (fun k c d hc hd h => ?_) (hi.kept fun d => ⟨rfl, rfl, rfl, id, fun h => absurd rfl h⟩)
  · intro j rest hr
    simpa [Server.finishResponse, modifyCtx] using hi.worker j rest hr
  · cases hc.symm.trans hd
    cases hp.symm.trans hdp
  · exact h.modify hc hd rfl (fun _ h => h) rfl rfl rfl (.inl rfl)

theorem feedEnd (hi : Counted max s) (h : s.feedEnd = some s')
    (hsafe : s.WithinLimit max .feedEnd) : Counted max s' := by
  unfold Server.feedEnd at h
  split at h
  · rename_i who hfeed
    have hpending : s.pending = s.wire := by simp [pending, hfeed]
    split at h
    -- the feed has ended with `BodyTooLarge`, which goes to whoever has fed
    · rename_i n hflag
      -- the selector thread closes the connection; a worker gets the exception
      cases who with
      | none =>
        cases h
        exact hi.quiet rfl hpending.symm rfl rfl rfl rfl id (fun _ => rfl)
          (fun j rest hr => (by cases hr)) (fun k hk => (by cases hk))
          (fun _ _ _ _ _ _ => .inr (.inl rfl)) hi.kept_id
      | some i =>
        cases h
        simp only [WithinLimit, hfeed] at hsafe
        refine hi.quiet rfl hpending.symm rfl rfl rfl rfl id (fun _ => rfl)
          (fun j rest hr => (by cases hr)) (fun k hk => (by cases hk)) (fun k c d hc hd h => ?_)
          (hi.kept fun c => ⟨rfl, rfl, rfl, fun _ => rfl, fun h => h⟩)
        rcases h with hr | hclosed | ⟨hset, howner⟩
        · exact .inl (raised_modify (fun _ _ => rfl) hc hd hr)
        · exact .inr (.inl hclosed)
        · -- the handler that was feeding gets the exception, and the request is its own
          cases howner i [] hfeed (hsafe hset)
          obtain ⟨c₀, -, rfl⟩ := getElem?_modify_iff.1 hd
          rw [if_pos rfl]
          exact .inl rfl
    · rename_i hflag
      -- no exception: the deferred request is dispatched, when there is one
      split at h
      · rename_i k hk
        cases h
        obtain ⟨c, hc, hp⟩ := hi.slot k hk
        refine hi.quiet rfl hpending.symm rfl rfl rfl rfl id (fun _ => hflag)
          (fun j rest hr => (by cases hr)) (fun j hj => (by cases hj))
          (fun j c d hc hd h => h.modify hc hd rfl (fun _ h => h) rfl rfl rfl (.inr rfl)) ?_
        intro j d hd
        obtain ⟨c₀, hc₀, rfl⟩ := getElem?_modify_iff.1 hd
        obtain ⟨hgot, hun⟩ := hi.given j c₀ hc₀
        refine ⟨c₀, hc₀, ?_⟩
        split
        · rename_i hkj
          subst hkj
          cases hc.symm.trans hc₀
          have hne : c.phase ≠ .finished := by simp [hp]
          exact ⟨rfl, hgot, id, fun _ => ⟨hne, hun hne⟩, .inl⟩
        · exact ⟨rfl, hgot, id, fun hp' => ⟨hp', hun hp'⟩, .inl⟩
      · rename_i hslot
        cases h
        exact hi.quiet rfl hpending.symm rfl rfl rfl rfl id (fun _ => hflag)
          (fun j rest hr => (by cases hr)) (fun j hj => (by cases hslot.symm.trans hj))
          (fun j c d hc hd h => h.mono (fun hr => by cases hc.symm.trans hd; exact hr) id id
            fun i rest hf => (by cases hf)) hi.kept_id
  · cases h

/-! ### The callbacks -/

section Fire

variable {who : Option Nat} {cb : Callback} {rest : List Callback} {stage : Stage}

theorem next (hi : Counted max s) (hfeed : s.feed = some (who, cb :: rest)) :
    ∃ stage, s.stream.stage.next cb = some stage ∧
      Httptools.valid stage (rest ++ s.wire) = true := by
  have hv := hi.valid
  rw [pending, hfeed] at hv
  exact valid_cons hv

/-- What was found exceeded is so behind a callback that leaves the context slot as it is. -/
theorem over_next (hfeed : s.feed = some (who, cb :: rest)) {k : Nat} {c : Ctx} (h : s.Over k c)
    (hrfeed : s'.feed = some (who, rest)) (hopen : s'.conn.isOpen = s.conn.isOpen)
    (hctx : s'.conn.ctx = s.conn.ctx)
    (hflag : s.conn.bodyTooLarge.isSome = true → s'.conn.bodyTooLarge.isSome = true) :
    s'.Over k c := by
  refine h.mono id (fun hclosed => hopen.trans hclosed) hflag fun i rest' hf hc => ?_
  cases hrfeed.symm.trans hf
  exact ⟨hctx.symm.trans hc, _, hfeed⟩

theorem headStep (hi : Counted max s) (hfeed : s.feed = some (who, cb :: rest))
    (hnext : s.stream.stage.next cb = some .head)
    (hmsgs : (s.stream.observe cb).msgs = s.stream.msgs) {cur : Scratch}
    (hover : cur.oversize = false) :
    Counted max { s with
      conn := { s.conn with cur := cur }, feed := some (who, rest)
      stream := s.stream.observe cb } := by
  have hstage := s.stream.stage_observe hnext
  obtain ⟨stage', hnext', hvalid⟩ := hi.next hfeed
  cases hnext.symm.trans hnext'
  have hne : (s.stream.observe cb).stage ≠ .body := by simp [hstage]
  -- A callback of a head belongs to no body: the counts stay as they are.
  refine { hi with
    valid := by
      simp only [hstage]
      exact hvalid
    ordered := hi.ordered.observe hnext
    head := fun _ => hover
    msgs := by
      simp only [hmsgs]
      exact hi.msgs
    current := fun hs => absurd hs hne
    eom := fun hs => absurd hs hne
    rolled := fun _ hs => absurd hs hne
    flag := fun hf => (by cases hf)
    worker := ?_
    arrived := by
      simp only [hmsgs]
      exact fun k c hc hp m hm => (hi.arrived k c hc hp m hm).imp_right
        (over_next hfeed · rfl rfl rfl id)
    saw := fun k c hc hsaw => ⟨fun hs => absurd hs hne, by
      simp only [hmsgs]
      exact (hi.saw k c hc hsaw).2⟩ }
  rintro i rest' ⟨⟩
  exact hi.worker i _ hfeed

theorem messageComplete (hi : Counted max s)
    (hfeed : s.feed = some (who, .messageComplete :: rest)) :
    Counted max { s with
      conn := s.conn.onMessageComplete, feed := some (who, rest)
      stream := s.stream.observe .messageComplete } := by
  obtain ⟨stage, hnext, hvalid⟩ := hi.next hfeed
  obtain ⟨hbody, rfl⟩ := next_messageComplete hnext
  have hstage := s.stream.stage_observe hnext
  have hne : (s.stream.observe .messageComplete).stage ≠ .body := by simp [hstage]
  have hlen : (s.stream.observe .messageComplete).msgs.length = s.stream.msgs.length :=
    List.length_modify ..
  have hsame : ∀ (j : Nat) (m : Msg), (s.stream.observe .messageComplete).msgs[j]? = some m →
      ∃ m₀, s.stream.msgs[j]? = some m₀ ∧ m₀.body = m.body := by
    intro j m hm
    obtain ⟨m₀, hm₀, rfl⟩ := getElem?_modify_iff.1 hm
    refine ⟨m₀, hm₀, ?_⟩
    split <;> rfl
  -- The message is complete, and its body is what it was before.
  refine { hi with
    valid := by
      simp only [hstage]
      exact hvalid
    ordered := hi.ordered.observe hnext
    head := fun hs => (by cases hstage.symm.trans hs)
    msgs := by
      simp only [hlen]
      exact hi.msgs
    current := fun hs => absurd hs hne
    eom := fun hs => absurd hs hne
    rolled := fun _ hs => absurd hs hne
    flag := fun hf => (by cases hf)
    worker := ?_
    arrived := fun k c hc hp m hm => ?_
    saw := fun k c hc hsaw => ⟨fun hs => absurd hs hne, fun m hm => ?_⟩ }
  · rintro i rest' ⟨⟩
    exact hi.worker i _ hfeed
  · obtain ⟨m₀, hm₀, hb⟩ := hsame _ m hm
    rw [← hb]
    exact (hi.arrived k c hc hp m₀ hm₀).imp_right (over_next hfeed · rfl rfl rfl id)
  · obtain ⟨m₀, hm₀, hb⟩ := hsame _ m hm
    rw [← hb]
    exact (hi.saw k c hc hsaw).2 m₀ hm₀

theorem body (hi : Counted max s) {data : Bytes} {h : Handling}
    (hfeed : s.feed = some (who, .body data :: rest)) (hsafe : s.WithinLimit max (.fire h)) :
    Counted max { s with
      conn := s.conn.onBody max data, feed := some (who, rest)
      stream := s.stream.observe (.body data) } := by
  simp only [WithinLimit, hfeed] at hsafe
  obtain ⟨hbuffered, hrequest⟩ := hsafe
  obtain ⟨stage, hnext, hvalid⟩ := hi.next hfeed
  obtain ⟨hbody, rfl⟩ := next_body hnext
  have hstage := s.stream.stage_observe hnext
  have hlen : (s.stream.observe (.body data)).msgs.length = s.stream.msgs.length :=
    List.length_modify ..
  obtain ⟨hctx, hcur, heom, hmc, hclose, hdeferred, hopen, hflag⟩ :=
    Conn.onBody_slots max s.conn data
  constructor
  · rw [hstage]
    exact hvalid
  · exact hi.ordered.observe hnext
  · intro hs
    cases hstage.symm.trans hs
  · intro k c hc
    rw [hlen]
    exact hi.msgs k c hc
  · intro _ k c hc
    rw [hlen, hctx, hcur]
    exact hi.current hbody k c hc
  · intro _
    rw [hcur, heom]
    exact hi.eom hbody
  · intro h _
    rw [hcur, hclose]
    rw [hmc] at h
    exact hi.rolled h hbody
  · intro hf
    cases hf
  · rintro i rest' ⟨⟩
    exact hi.worker i _ hfeed
  · intro k hk
    rw [hdeferred] at hk
    exact hi.slot k hk
  -- What the context has taken is unchanged; the buffer grows only when the piece is kept.
  · intro k c hc
    obtain ⟨hgot, hun⟩ := hi.given k c hc
    refine ⟨hgot, fun hp => ?_⟩
    rcases Conn.onBody_cases max s.conn data with
      ⟨-, heq⟩ | ⟨-, -, -, heq⟩ | ⟨-, hdrop, hfit, heq⟩
    · rw [heq]
      exact hun hp
    · rw [heq]
      exact hun hp
    · rw [heq]
      have hle := hbuffered c (List.mem_of_getElem? hc) hp hdrop hfit
      simpa only [List.length_append, Nat.add_assoc] using hle
  · intro k c hc hp m hm
    obtain ⟨m₀, hm₀, rfl⟩ := getElem?_modify_iff.1 hm
    split
    · -- The piece belongs to the request of this context, which then owns the slots.
      rename_i hlast
      have hover' := (hi.current hbody k c hc (by have := hi.msgs k c hc; omega)).2
      have hle := hrequest c (List.mem_of_getElem? hc) hp
      simp only [List.length_append]
      rcases Conn.onBody_cases max s.conn data with
        ⟨hdrop, -⟩ | ⟨-, -, -, heq⟩ | ⟨-, -, hfit, -⟩
      · rcases hdrop with hdrop | hdrop
        · cases hover'.symm.trans hdrop
        · exact .inl (hle (.inl hdrop) m₀ hm₀)
      · -- The flag is set with its context in the slot.
        have howned := (hi.current hbody k c hc (by have := hi.msgs k c hc; omega)).1
        refine .inr (.inr (.inr ⟨by simp [heq], fun i rest' _ hslot => ?_⟩))
        exact Option.some.inj (howned.symm.trans (hctx.symm.trans hslot))
      · exact .inl (hle (.inr hfit) m₀ hm₀)
    -- The piece belongs to a later request.
    · exact (hi.arrived k c hc hp m₀ hm₀).imp_right (over_next hfeed · rfl hopen hctx hflag)
  · intro k c hc hsaw
    obtain ⟨hlast, hle⟩ := hi.saw k c hc hsaw
    refine ⟨fun _ => ?_, fun m hm => ?_⟩
    · rw [hlen]
      exact hlast hbody
    · obtain ⟨m₀, hm₀, rfl⟩ := getElem?_modify_iff.1 hm
      rw [if_neg (by have := hlast hbody; have := hi.msgs k c hc; omega)]
      exact hle m₀ hm₀

/-- The end of a head that was not refused: the slots belong to a new context. -/
theorem headComplete (hi : Counted max s) (hfeed : s.feed = some (who, cb :: rest))
    (hnext : s.stream.stage.next cb = some .body) {m : Msg}
    (hmsgs : (s.stream.observe cb).msgs = s.stream.msgs ++ [m]) (hm : m.body = []) {r : Server}
    {c : Ctx} (hrfeed : r.feed = some (who, rest)) (hrwire : r.wire = s.wire)
    (hrstream : r.stream = s.stream.observe cb) (hrctxs : r.ctxs = s.ctxs ++ [c])
    (hmsg : c.msg = s.stream.msgs.length) (hgot : c.got = []) (hsaw : c.sawEom = false)
    (hctx : r.conn.ctx = some s.ctxs.length) (hover : r.conn.cur.oversize = false)
    (hbuf : r.conn.bodyBuf = []) (heom : r.conn.bodyEom = false)
    (hflag : r.conn.bodyTooLarge = s.conn.bodyTooLarge) (hopen : r.conn.isOpen = s.conn.isOpen)
    (hrolled : r.conn.messageComplete = true → r.conn.closeAfterResponse = true)
    (hslot : ∀ k, r.conn.deferred = some k →
      k = s.ctxs.length ∧ c.phase = .deferred ∨ s.conn.deferred = some k) : Counted max r := by
  have hstage : r.stream.stage = .body := by
    rw [hrstream]
    exact s.stream.stage_observe hnext
  obtain ⟨stage', hnext', hvalid⟩ := hi.next hfeed
  cases hnext.symm.trans hnext'
  have hrmsgs : r.stream.msgs = s.stream.msgs ++ [m] := by rw [hrstream, hmsgs]
  have hlen : r.stream.msgs.length = s.stream.msgs.length + 1 := by simp [hrmsgs]
  have hctxs : ∀ (k : Nat) (d : Ctx), r.ctxs[k]? = some d →
      s.ctxs[k]? = some d ∨ k = s.ctxs.length ∧ c = d := by
    intro k d hd
    rw [hrctxs] at hd
    exact getElem?_concat_iff.1 hd
  -- The request of an old context is an old one.
  have hold : ∀ (k : Nat) (d : Ctx) (m' : Msg), s.ctxs[k]? = some d →
      r.stream.msgs[d.msg]? = some m' → s.stream.msgs[d.msg]? = some m' := by
    intro k d m' hd hm'
    rw [hrmsgs] at hm'
    rcases getElem?_concat_iff.1 hm' with hm' | ⟨hlast, -⟩
    · exact hm'
    · have := hi.msgs k d hd
      omega
  constructor
  · rw [hstage, pending, hrfeed, hrwire]
    exact hvalid
  · rw [hrstream]
    exact hi.ordered.observe hnext
  · intro hs
    cases hstage.symm.trans hs
  · intro k d hd
    rw [hlen]
    rcases hctxs k d hd with hd | ⟨-, rfl⟩
    · exact Nat.lt_succ_of_lt (hi.msgs k d hd)
    · rw [hmsg]
      exact Nat.lt_succ_self _
  · intro _ k d hd hlast
    rcases hctxs k d hd with hd | ⟨rfl, rfl⟩
    · have := hi.msgs k d hd
      omega
    · exact ⟨hctx, hover⟩
  · exact fun _ _ => heom
  · exact fun h _ => .inr (hrolled h)
  · intro hf
    cases hrfeed.symm.trans hf
  · intro i rest' hf
    cases hrfeed.symm.trans hf
    rw [hrctxs, List.length_append]
    exact Nat.lt_add_right _ (hi.worker i _ hfeed)
  · intro k hk
    rw [hrctxs]
    rcases hslot k hk with ⟨rfl, hp⟩ | hk
    · exact ⟨c, getElem?_concat_iff.2 (.inr ⟨rfl, rfl⟩), hp⟩
    · obtain ⟨d, hd, hp⟩ := hi.slot k hk
      exact ⟨d, getElem?_concat_iff.2 (.inl hd), hp⟩
  · intro k d hd
    rw [hbuf]
    rcases hctxs k d hd with hd | ⟨-, rfl⟩
    · exact ⟨(hi.given k d hd).1, fun _ => (hi.given k d hd).1⟩
    · simp [hgot]
  · intro k d hd hp m' hm'
    rcases hctxs k d hd with hd | ⟨-, rfl⟩
    · refine (hi.arrived k d hd hp m' (hold k d m' hd hm')).imp_right fun hover => ?_
      refine hover.mono id (fun hclosed => hopen.trans hclosed) (fun hset => by rw [hflag, hset]) ?_
      -- the context of a feeding worker is an old one, and the slot has a new one
      intro i rest' hf hslot
      cases hrfeed.symm.trans hf
      cases hctx.symm.trans hslot
      exact absurd (hi.worker _ _ hfeed) (Nat.lt_irrefl _)
    · rw [hrmsgs, hmsg] at hm'
      have hlast : (s.stream.msgs ++ [m])[s.stream.msgs.length]? = some m :=
        getElem?_concat_iff.2 (.inr ⟨rfl, rfl⟩)
      cases hlast.symm.trans hm'
      simp [hm]
  · intro k d hd hds
    rcases hctxs k d hd with hd | ⟨-, rfl⟩
    · refine ⟨fun _ => ?_, fun m' hm' => ?_⟩
      · have := hi.msgs k d hd
        omega
      · exact (hi.saw k d hd hds).2 m' (hold k d m' hd hm')
    · cases hsaw.symm.trans hds

/-- A head that was refused sets the flag and leaves the slots alone. -/
theorem headRefused (hi : Counted max s) (hfeed : s.feed = some (who, cb :: rest))
    (hnext : s.stream.stage.next cb = some .body) {m : Msg}
    (hmsgs : (s.stream.observe cb).msgs = s.stream.msgs ++ [m]) {n : Int} {cur : Scratch}
    (hover : cur.oversize = true) :
    Counted max { s with
      conn := { s.conn with bodyTooLarge := some n, cur := cur }, feed := some (who, rest)
      stream := s.stream.observe cb } := by
  have hstage := s.stream.stage_observe hnext
  obtain ⟨stage', hnext', hvalid⟩ := hi.next hfeed
  cases hnext.symm.trans hnext'
  have hlen : (s.stream.observe cb).msgs.length = s.stream.msgs.length + 1 := by simp [hmsgs]
  -- The message of the refused head has no context, so the contexts keep theirs.
  have hold : ∀ (k : Nat) (d : Ctx) (m' : Msg), s.ctxs[k]? = some d →
      (s.stream.observe cb).msgs[d.msg]? = some m' → s.stream.msgs[d.msg]? = some m' := by
    intro k d m' hd hm'
    rw [hmsgs] at hm'
    rcases getElem?_concat_iff.1 hm' with hm' | ⟨hlast, -⟩
    · exact hm'
    · have := hi.msgs k d hd
      omega
  refine { hi with
    valid := by
      simp only [hstage]
      exact hvalid
    ordered := hi.ordered.observe hnext
    head := fun hs => (by cases hstage.symm.trans hs)
    msgs := fun k c hc => ?_
    current := fun _ k c hc hlast => ?_
    eom := fun _ hf => (by cases hover.symm.trans hf)
    rolled := fun _ _ => .inl hover
    flag := fun hf => (by cases hf)
    worker := ?_
    arrived := fun k c hc hp m' hm' => ?_
    saw := fun k c hc hsaw => ⟨fun _ => ?_, fun m' hm' => ?_⟩ }
  · simp only [hlen]
    exact Nat.lt_succ_of_lt (hi.msgs k c hc)
  · have := hi.msgs k c hc
    simp only [hlen] at hlast
    omega
  · rintro i rest' ⟨⟩
    exact hi.worker i _ hfeed
  · exact (hi.arrived k c hc hp m' (hold k c m' hc hm')).imp_right
      (over_next hfeed · rfl rfl rfl fun _ => rfl)
  · have := hi.msgs k c hc
    simp only [hlen]
    omega
  · exact (hi.saw k c hc hsaw).2 m' (hold k c m' hc hm')

theorem headersComplete (hi : Counted max s) {method version : Bytes} {keepAlive : Bool}
    (h : Handling)
    (hfeed : s.feed = some (who, .headersComplete method version keepAlive :: rest)) :
    Counted max ({ s with
      feed := some (who, rest)
      stream := s.stream.observe (.headersComplete method version keepAlive)
      }.onHeadersComplete max method version keepAlive h) := by
  obtain ⟨stage, hnext, -⟩ := hi.next hfeed
  obtain ⟨hhead, rfl⟩ := next_headersComplete hnext
  -- a head never meets the flag of an oversized body
  have hover : s.conn.flattenTarget.cur.oversize = false := hi.head hhead
  have hlast : (s.stream.observe (.headersComplete method version keepAlive)).msgs.length - 1
      = s.stream.msgs.length := by
    simp [Stream.observe]
  unfold onHeadersComplete
  simp only
  split
  -- the Content-Length of the head is refused: no context is made
  · exact hi.headRefused hfeed hnext rfl rfl
  -- inline or for the pool, the new context belongs to the message that has just begun
  · cases h with
    | inline hasClose =>
      rw [handle_inline { s with
        conn := s.conn.flattenTarget, feed := some (who, rest)
        stream := s.stream.observe (.headersComplete method version keepAlive) }]
      unfold expectEdge
      split
      · exact hi.headComplete hfeed hnext rfl rfl rfl rfl rfl rfl hlast rfl rfl rfl hover rfl rfl
          rfl rfl (fun _ => rfl) fun k => .inr
      · exact hi.headComplete hfeed hnext rfl rfl rfl rfl rfl rfl hlast rfl rfl rfl hover rfl rfl
          rfl rfl (fun hf => by cases hf) fun k => .inr
    | pool =>
      have hslot : ∀ k, some s.ctxs.length = some k → k = s.ctxs.length := by
        rintro k ⟨⟩
        rfl
      unfold expectEdge
      split
      · exact hi.headComplete hfeed hnext rfl rfl rfl rfl rfl rfl hlast rfl rfl rfl hover rfl rfl
          rfl rfl (fun _ => rfl) fun k hk => .inl ⟨hslot k hk, rfl⟩
      · exact hi.headComplete hfeed hnext rfl rfl rfl rfl rfl rfl hlast rfl rfl rfl hover rfl rfl
          rfl rfl (fun hf => by cases hf) fun k hk => .inl ⟨hslot k hk, rfl⟩

/-- A callback within the limit keeps the counts. -/
theorem fire (hi : Counted max s) {h : Handling} (hstep : s.fire max h = some s')
    (hsafe : s.WithinLimit max (.fire h)) : Counted max s' := by
  unfold Server.fire at hstep
  split at hstep
  · rename_i who cb rest hfeed
    cases hstep
    obtain ⟨stage, hnext, -⟩ := hi.next hfeed
    cases cb with
    | messageBegin =>
      obtain ⟨-, rfl⟩ := next_messageBegin hnext
      exact hi.headStep hfeed hnext rfl rfl
    | url url =>
      obtain ⟨hs, rfl⟩ := next_url hnext
      simp only [onCallback, Conn.onUrl]
      split
      · exact hi.headStep hfeed hnext rfl (hi.head hs)
      · exact hi.headStep hfeed hnext rfl (hi.head hs)
    | header name value =>
      obtain ⟨hs, rfl⟩ := next_header hnext
      exact hi.headStep hfeed hnext rfl (hi.head hs)
    | headersComplete method version keepAlive => exact hi.headersComplete h hfeed
    | body data => exact hi.body hfeed hsafe
    | messageComplete => exact hi.messageComplete hfeed
  · cases hstep

end Fire

/-- A step within the limit keeps the counts. -/
theorem step {a : Act} (hi : Counted max s) (h : s.step max a = some s')
    (hsafe : s.WithinLimit max a) : Counted max s' := by
  obtain ⟨hopen, h⟩ := Option.ite_none_right_eq_some.1 h
  cases a with
  | recv n => exact hi.recv h
  | fin =>
    obtain ⟨-, ⟨⟩⟩ := Option.ite_none_right_eq_some.1 h
    exact hi.closed true
  | roll => exact hi.roll h
  | fire hd => exact hi.fire h hsafe
  | feedEnd => exact hi.feedEnd h hsafe
  | receive i n => exact hi.receive h
  | take i size => exact hi.take h
  | eof i => exact hi.eof hopen h
  | startResponse i hasClose =>
    obtain ⟨-, ⟨⟩⟩ := Option.ite_none_right_eq_some.1 h
    exact hi.startResponse i hasClose
  | finishResponse i =>
    obtain ⟨⟨hrun, -⟩, ⟨⟩⟩ := Option.ite_none_right_eq_some.1 h
    exact hi.finishResponse hrun

end Counted

end Server

/-! ## Runs -/

/-- No run of h11 hands a handler more than the limit, and neither does a run of httptools whose
body callbacks stay within it and whose workers are told of no other request's body. -/
theorem body_limit {max : Nat} {wire : List Callback} {as : List Act}
    (hwire : valid .idle wire = true)
    (hmeets : (system max).Meets (Server.WithinLimit max) (Server.start wire) as) :
    (∀ c, (H11.system max).Reachable c → c.Capped max) ∧
      (system max).Throughout (Server.Capped max) (Server.start wire) as := by
  refine ⟨fun _ h => H11.capped h, ?_⟩
  have hcounted : (system max).Throughout (Server.Counted max) (Server.start wire) as :=
    Lts.throughout_of_meets (I := fun _ => True) (fun _ _ _ _ _ => trivial)
      (fun _ _ _ _ hP hsafe hstep => hP.step hstep hsafe) trivial
        (Server.Counted.start hwire) hmeets
  exact hcounted.mono fun _ h => h.capped

/-- `POST /` with a chunked body of two pieces with two bytes each. -/
def chunked : List Callback :=
  [.messageBegin, .url [47],
    .header [116, 114, 97, 110, 115, 102, 101, 114, 45, 101, 110, 99, 111, 100, 105, 110, 103]
      [99, 104, 117, 110, 107, 101, 100],
    .headersComplete [80, 79, 83, 84] [49, 46, 49] true, .body [1, 2],
      .body [3, 4], .messageComplete]

/-- The handler reads each piece as it arrives. -/
def streamed : List Act :=
  [.recv 4] ++ List.replicate 4 (.fire .pool) ++ [.feedEnd, .receive 0 1, .fire .pool, .feedEnd,
    .take 0 65536, .receive 0 1, .fire .pool, .feedEnd, .take 0 65536, .receive 0 1, .fire .pool,
    .feedEnd, .eof 0, .startResponse 0 false, .finishResponse 0, .roll]

theorem body_limit_streamed :
    (∀ c, (H11.system 4).Reachable c → c.Capped 4) ∧
      (system 4).Throughout (Server.Capped 4) (Server.start chunked) streamed :=
  body_limit (by decide) (by decide)

/-- With a limit of two bytes the same handler is given four, and the request is answered. -/
theorem buffer_drained_between_pieces :
    ∃ s, (system 2).Reachable s ∧ s.ctxs.map (·.got) = [[1, 2, 3, 4]] ∧
      s.ctxs.map (·.sawEom) = [true] ∧ s.answers = [.of 0] ∧ s.ctxs.map (·.raised) = [false] ∧
      ¬s.Capped 2 := by
  have hreach := Lts.Reachable.of_isSome (M := system 2) ⟨chunked, by decide, rfl⟩ streamed
    (by decide)
  generalize hs : ((system 2).exec (Server.start chunked) streamed).get _ = s at hreach
  have hgot : s.ctxs.map (·.got) = [[1, 2, 3, 4]] := by
    subst hs
    decide
  refine ⟨s, hreach, hgot, ?_, ?_, ?_, fun h => ?_⟩
  · subst hs
    decide
  · subst hs
    decide
  · subst hs
    decide
  -- four bytes were handed out under a limit of two
  · have hfirst : (s.ctxs.map (·.got))[0]? = some [1, 2, 3, 4] := by
      rw [hgot]
      rfl
    rw [List.getElem?_map] at hfirst
    obtain ⟨c, hc, hcg⟩ := Option.map_eq_some_iff.1 hfirst
    have hle := (h 0 c hc).1
    rw [hcg] at hle
    exact absurd hle (by decide)

/-- Two requests with chunked bodies, the first empty and the second of three bytes. -/
def twoBodies : List Callback :=
  chunked.take 4 ++ [.messageComplete] ++ chunked.take 4 ++ [.body [1, 2, 3], .messageComplete]

/-- The first handler receives up to the second head, and goes on into the body behind it. -/
def readAhead : List Act :=
  [.recv 4] ++ List.replicate 4 (.fire .pool) ++ [.feedEnd, .receive 0 5] ++
    List.replicate 5 (.fire .pool) ++
      [.feedEnd, .receive 0 1, .fire .pool, .feedEnd, .receive 1 1, .fire .pool,
    .feedEnd, .eof 1]

/-- The first handler is told that the body is too large, and the second reaches the end of it. -/
theorem raised_to_first_handler :
    ∃ s, (system 2).Reachable s ∧ s.ctxs.map (·.raised) = [true, false] ∧
      s.ctxs.map (·.sawEom) = [false, true] ∧ s.stream.msgs.map (·.body) = [[], [1, 2, 3]] := by
  have hreach := Lts.Reachable.of_isSome (M := system 2) ⟨twoBodies, by decide, rfl⟩
    readAhead (by decide)
  generalize hs : ((system 2).exec (Server.start twoBodies) readAhead).get _ = s at hreach
  refine ⟨s, hreach, ?_, ?_, ?_⟩
  · subst hs
    decide
  · subst hs
    decide
  · subst hs
    decide

end LocalPost.Http.Httptools
