import LocalPost.Http.Httptools.Callbacks

/-!
# Pipelined requests

`Serial` says what a client that pipelines may rely on, as long as the requests it has sent are
within the body limit: every request received so far has one context with its own head, at most one
context is unfinished, a handler is given bytes of its own request only and `b""` only after all of
them, the responses are those of the requests in request order, and the connection is closed only by
the peer's FIN or by a response that ends it.

The per-request state sits in single slots, and the parser goes on with the next request of a chunk
whether or not the previous one has been served: `overwritten_dispatch` loses the first of two
requests in one chunk. `Orderly` is the condition on a callback, and `pipelined_serial` shows that
it is enough for whole runs.
-/

set_option autoImplicit false

namespace LocalPost.Http.Httptools

open LocalPost.Core

/-- The request is within the body limit, by its declared length and by what has arrived of it. -/
def Msg.Accepted (max : Nat) (m : Msg) : Prop :=
  m.body.length ≤ max ∧ Server.oversizeLength max m.request.headers = none

instance (max : Nat) (m : Msg) : Decidable (m.Accepted max) := inferInstanceAs (Decidable (_ ∧ _))

namespace Server

/-- All requests received so far are within the limit. -/
def Accepted (max : Nat) (s : Server) : Prop :=
  ∀ (k : Nat) (m : Msg), s.stream.msgs[k]? = some m → m.Accepted max

/-- What a pipelining client may rely on. -/
structure Serial (s : Server) : Prop where
  dispatched : s.ctxs.map (·.request) = s.stream.msgs.map (·.request)
  waiting : ∀ (k : Nat) (c : Ctx), s.ctxs[k]? = some c → c.phase = .deferred →
    s.conn.deferred = some k ∧ ∃ rest, s.feed = some (none, rest)
  one : ∀ (i j : Nat) (c d : Ctx), s.ctxs[i]? = some c → s.ctxs[j]? = some d →
    c.phase ≠ .finished → d.phase ≠ .finished → i = j
  body : ∀ (k : Nat) (c : Ctx) (m : Msg), s.ctxs[k]? = some c → s.stream.msgs[k]? = some m →
    c.got <+: m.body ∧ (c.sawEom = true → c.got = m.body ∧ m.complete = true)
  answers : ∃ n, s.answers = (List.range n).map Answer.of ∧
    ∀ (k : Nat) (c : Ctx), s.ctxs[k]? = some c → (c.started = true ↔ k < n)
  finished : ∀ (k : Nat) (c : Ctx), s.ctxs[k]? = some c → c.phase = .finished → c.started = true
  driven : s.conn.isOpen = true → s.conn.tracked = false → ∃ k, s.isRunning k = true
  closed : s.conn.isOpen = false → s.gone = true ∨ ∃ c ∈ s.ctxs, c.closes = true

/-- The property of a state: `Serial`, unless some request has exceeded the limit. -/
def Pipelined (max : Nat) (s : Server) : Prop := s.Accepted max → s.Serial

/-- The condition on a step. A head is complete only when all earlier requests are served, and a
request that waits for 100 Continue is not deferred while the flag of an earlier response is set; a
body arrives for a deferred request only when that flag is clear. -/
def Orderly (s : Server) : Act → Prop
  | .fire h =>
    match s.feed with
    | some (_, .headersComplete _ _ _ :: _) =>
      (∀ c ∈ s.ctxs, c.phase = .finished) ∧
        (h = .pool → s.conn.cur.expect100 = true → s.conn.responseStarted = false)
    | some (_, .body _ :: _) => s.conn.deferred.isSome = true → s.conn.responseStarted = false
    | _ => True
  | _ => True

instance (s : Server) : ∀ a, Decidable (s.Orderly a)
  | .fire h =>
    match hfeed : s.feed with
    | some (_, .headersComplete _ _ _ :: _) =>
      decidable_of_iff ((∀ c ∈ s.ctxs, c.phase = .finished) ∧
        (h = .pool → s.conn.cur.expect100 = true → s.conn.responseStarted = false))
        (by simp [Orderly, hfeed])
    | some (_, .body _ :: _) =>
      decidable_of_iff (s.conn.deferred.isSome = true → s.conn.responseStarted = false)
        (by simp [Orderly, hfeed])
    | none => .isTrue (by simp [Orderly, hfeed])
    | some (_, []) => .isTrue (by simp [Orderly, hfeed])
    | some (_, .messageBegin :: _) => .isTrue (by simp [Orderly, hfeed])
    | some (_, .url _ :: _) => .isTrue (by simp [Orderly, hfeed])
    | some (_, .header _ _ :: _) => .isTrue (by simp [Orderly, hfeed])
    | some (_, .messageComplete :: _) => .isTrue (by simp [Orderly, hfeed])
  | .recv _ => .isTrue trivial
  | .fin => .isTrue trivial
  | .roll => .isTrue trivial
  | .feedEnd => .isTrue trivial
  | .receive _ _ => .isTrue trivial
  | .take _ _ => .isTrue trivial
  | .eof _ => .isTrue trivial
  | .startResponse _ _ => .isTrue trivial
  | .finishResponse _ => .isTrue trivial

variable {max : Nat} {s s' : Server}

/-- Orderly slots serve one request at a time. -/
theorem Ok.serial (hi : Ok s) : s.Serial where
  dispatched := by
    apply List.ext_getElem?
    intro k
    simp only [List.getElem?_map]
    -- the `k`-th context is that of the `k`-th message, and there are equally many
    cases hc : s.ctxs[k]? with
    | some c =>
      obtain ⟨m, hm, hpair⟩ := hi.msg hc
      rw [hm]
      exact congrArg some hpair.request
    | none =>
      have hge := List.getElem?_eq_none_iff.1 hc
      rw [hi.length] at hge
      rw [List.getElem?_eq_none hge]
      rfl
  waiting k c hc hp := by
    obtain ⟨m, -, hpair⟩ := hi.msg hc
    exact ((hpair.active (by simp [hp])).deferred hp).2.2
  one i j c d hc hd hpc hpd := by
    have hci := (hi.unfinished hc hpc).1
    exact Option.some.inj (hci.symm.trans (hi.unfinished hd hpd).1)
  body k c m hc hm := ⟨(hi.pairs k c m hc hm).given, (hi.pairs k c m hc hm).eom⟩
  answers := by
    obtain ⟨n, hn, -, hstarted⟩ := hi.answers
    exact ⟨n, hn, hstarted⟩
  finished k c hc hp := by
    obtain ⟨m, -, hpair⟩ := hi.msg hc
    exact hpair.finished hp
  driven := hi.driven
  closed := hi.closed

/-! ## One step -/

/-- A callback does not touch the stream of requests. -/
theorem stream_onCallback (r : Server) (h : Handling) (cb : Callback) :
    (r.onCallback max h cb).stream = r.stream := by
  cases cb with
  | messageBegin => rfl
  | url url => rfl
  | header name value => rfl
  | headersComplete method version keepAlive =>
    simp only [onCallback, onHeadersComplete]
    split
    · rfl
    · have hedge : ∀ r : Server, r.expectEdge.stream = r.stream := by
        intro r
        unfold expectEdge
        split <;> rfl
      rw [hedge]
      cases h with
      | pool => rfl
      | inline hasClose =>
        simp only [handle, modifyCtx, Server.finishResponse, Server.startResponse]
        split <;> rfl
  | body data => rfl
  | messageComplete => rfl

/-- A step receives at most one callback. -/
theorem stream_step {a : Act} (h : s.step max a = some s') :
    s'.stream = s.stream ∨ ∃ cb, s'.stream = s.stream.observe cb := by
  obtain ⟨-, h⟩ := Option.ite_none_right_eq_some.1 h
  -- Only a callback is seen by the stream.
  cases a with
  | recv n =>
    obtain ⟨-, ⟨⟩⟩ := Option.ite_none_right_eq_some.1 h
    exact .inl rfl
  | fin =>
    obtain ⟨-, ⟨⟩⟩ := Option.ite_none_right_eq_some.1 h
    exact .inl rfl
  | roll =>
    obtain ⟨-, h⟩ := Option.ite_none_right_eq_some.1 h
    split at h
    · cases h
      exact .inl rfl
    · split at h <;> cases h <;> exact .inl rfl
  | fire hd =>
    simp only [act, fire] at h
    split at h
    · rename_i who cb rest hfeed
      cases h
      exact .inr ⟨cb, by rw [stream_onCallback]⟩
    · cases h
  | feedEnd =>
    simp only [act, feedEnd] at h
    split at h
    · split at h
      · split at h <;> cases h <;> exact .inl rfl
      · split at h <;> cases h <;> exact .inl rfl
    · cases h
  | receive i n =>
    obtain ⟨-, ⟨⟩⟩ := Option.ite_none_right_eq_some.1 h
    exact .inl rfl
  | take i size =>
    obtain ⟨-, ⟨⟩⟩ := Option.ite_none_right_eq_some.1 h
    exact .inl rfl
  | eof i =>
    obtain ⟨-, ⟨⟩⟩ := Option.ite_none_right_eq_some.1 h
    exact .inl rfl
  | startResponse i hasClose =>
    obtain ⟨-, ⟨⟩⟩ := Option.ite_none_right_eq_some.1 h
    unfold startResponse
    split <;> exact .inl rfl
  | finishResponse i =>
    obtain ⟨-, ⟨⟩⟩ := Option.ite_none_right_eq_some.1 h
    exact .inl rfl

/-- A request that is within the limit now was so before. -/
theorem accepted_of_step {a : Act} (h : s.step max a = some s') (hacc : s'.Accepted max) :
    s.Accepted max := by
  intro k m hm
  rcases stream_step h with hsame | ⟨cb, hcb⟩
  · apply hacc k m
    rw [hsame]
    exact hm
  · obtain ⟨m', hm', hrequest, hbody⟩ := s.stream.observe_grows cb hm
    rw [← hcb] at hm'
    obtain ⟨hlen, hfits⟩ := hacc k m' hm'
    rw [hrequest] at hfits
    exact ⟨hbody.length_le.trans hlen, hfits⟩

/-- A callback that fires in good order keeps the slots in order. -/
theorem Ok.fire {h : Handling} (hi : Ok s) (hopen : s.conn.isOpen = true)
    (hstep : s.fire max h = some s') (hacc : s'.Accepted max) (hsafe : s.Orderly (.fire h)) :
    Ok s' := by
  unfold Server.fire at hstep
  split at hstep
  · rename_i who cb rest hfeed
    cases hstep
    simp only [Orderly, hfeed] at hsafe
    have hmsgs : ∀ (k : Nat) (m : Msg), (s.stream.observe cb).msgs[k]? =
        some m → m.Accepted max := by
      intro k m hm
      refine hacc k m ?_
      rw [stream_onCallback]
      exact hm
    obtain ⟨stage, hnext, -⟩ := hi.next hfeed
    have hfits := hi.fits
    cases cb with
    | messageBegin =>
      -- the head grows piece by piece, and the scratch area with it
      obtain ⟨-, rfl⟩ := next_messageBegin hnext
      exact hi.headStep hfeed hnext rfl ⟨rfl, rfl, fun _ => rfl⟩ rfl
    | url url =>
      obtain ⟨hs, rfl⟩ := next_url hnext
      obtain ⟨hheaders, htarget, hpieces⟩ := hi.head hs
      simp only [onCallback, Conn.onUrl]
      -- the first piece is taken as it is, the later ones are appended
      split
      · rename_i hempty
        refine hi.headStep hfeed hnext rfl ⟨hheaders, ?_, fun _ => hpieces hempty⟩ hfits.1
        rw [hempty, hpieces hempty] at htarget
        simp only [Stream.observe, ← htarget, hpieces hempty]
        rfl
      · rename_i hne
        refine hi.headStep hfeed hnext rfl ⟨hheaders, ?_, fun hempty => absurd hempty hne⟩ hfits.1
        simp only [Stream.observe, ← htarget]
        rfl
    | header name value =>
      obtain ⟨hs, rfl⟩ := next_header hnext
      obtain ⟨hheaders, htarget, hpieces⟩ := hi.head hs
      refine hi.headStep hfeed hnext rfl ⟨?_, htarget, hpieces⟩ hfits.1
      simp only [Stream.observe, ← hheaders]
    | headersComplete method version keepAlive =>
      obtain ⟨hs, rfl⟩ := next_headersComplete hnext
      -- the new message is the last one of the stream
      have hnew := hmsgs s.stream.msgs.length _ (getElem?_concat_iff.2 (.inr ⟨rfl, rfl⟩))
      exact hi.headersComplete hopen h hfeed hnew.2 hsafe.1 hsafe.2
    | body data => exact hi.body hfeed (fun k m hm => (hmsgs k m hm).1) hsafe
    | messageComplete => exact hi.messageComplete hfeed
  · cases hstep

/-- An orderly step keeps the slots in line with the requests. -/
theorem Ok.step {a : Act} (hi : Ok s) (h : s.step max a = some s') (hacc : s'.Accepted max)
    (hsafe : s.Orderly a) : Ok s' := by
  obtain ⟨hopen, h⟩ := Option.ite_none_right_eq_some.1 h
  cases a with
  | recv n => exact hi.recv h
  | fin => exact hi.fin h
  | roll => exact hi.roll h
  | fire hd => exact hi.fire hopen h hacc hsafe
  | feedEnd => exact hi.feedEnd h
  | receive i n => exact hi.receive h
  | take i size => exact hi.take h
  | eof i => exact hi.eof h
  | startResponse i hasClose =>
    obtain ⟨⟨hrun, -, hany⟩, ⟨⟩⟩ := Option.ite_none_right_eq_some.1 h
    obtain ⟨c, hc, hp⟩ := isRunning_iff.1 hrun
    rw [hc] at hany
    exact hi.startResponse hc hp (by simpa using hany) hasClose
  | finishResponse i =>
    obtain ⟨⟨hrun, hf, hany⟩, ⟨⟩⟩ := Option.ite_none_right_eq_some.1 h
    obtain ⟨c, hc, hp⟩ := isRunning_iff.1 hrun
    rw [hc] at hany
    exact hi.finishResponse hc hp (by simpa using hany) hf

end Server

/-! ## Runs -/

/-- In a run whose steps are orderly, pipelined requests are served one after the other. -/
theorem pipelined_serial {max : Nat} {wire : List Callback} {as : List Act}
    (hwire : valid .idle wire = true)
    (hmeets : (system max).Meets Server.Orderly (Server.start wire) as) :
    (system max).Throughout (Server.Pipelined max) (Server.start wire) as := by
  have hok : (system max).Throughout (fun s => s.Accepted max → s.Ok) (Server.start wire) as := by
    refine Lts.throughout_of_meets (I := fun _ => True) (fun _ _ _ _ _ => trivial) ?_ trivial
      (fun _ => Server.ok_start hwire) hmeets
    intro s a t _ hP hsafe hstep hacc
    exact (hP (Server.accepted_of_step hstep hacc)).step hstep hacc hsafe
  exact hok.mono fun s h hacc => (h hacc).serial

/-- `POST /a` with a body of two bytes, then `GET /b`. -/
def twoRequests : List Callback :=
  [.messageBegin, .url [47, 97], .headersComplete [80, 79, 83, 84] [49, 46, 49] true,
    .body [120, 121],
    .messageComplete, .messageBegin, .url [47, 98], .headersComplete [71, 69, 84] [49, 46, 49] true,
    .messageComplete]

/-- The first request goes to the pool and is served before the head of the second one is
complete. -/
def oneAfterTheOther : List Act :=
  [.recv 3] ++ List.replicate 3 (.fire .pool) ++ [.feedEnd, .receive 0 3] ++
    List.replicate 3 (.fire .pool) ++ [.feedEnd, .take 0 65536, .eof 0, .startResponse 0 false,
    .finishResponse 0, .roll, .recv 3] ++ List.replicate 3
      (.fire (.inline false)) ++ [.feedEnd, .roll]

theorem pipelined_serial_oneAfterTheOther :
    (system 10).Throughout (Server.Pipelined 10) (Server.start twoRequests) oneAfterTheOther :=
  pipelined_serial (by decide) (by decide)

/-- Both requests arrive in one chunk and go to the pool. -/
def oneChunk : List Act := [.recv 9] ++ List.replicate 9 (.fire .pool) ++ [.feedEnd]

/-- The dispatch of the first request is overwritten by that of the second one: its handler is never
called, and it stays unanswered. -/
theorem overwritten_dispatch :
    ∃ s, (system 10).Reachable s ∧ s.Accepted 10 ∧ s.conn.isOpen = true ∧ s.feed = none ∧
      s.wire = [] ∧ s.conn.deferred = none ∧ s.ctxs.map (·.phase) = [.deferred, .running] ∧
      ¬s.Pipelined 10 := by
  have hreach := Lts.Reachable.of_isSome (M := system 10) ⟨twoRequests, by decide, rfl⟩ oneChunk
    (by decide)
  generalize hs : ((system 10).exec (Server.start twoRequests) oneChunk).get _ = s at hreach
  have hacc : s.Accepted 10 := by
    have hall : ∀ m ∈ s.stream.msgs, m.Accepted 10 := by
      subst hs
      decide
    exact fun k m hm => hall m (List.mem_of_getElem? hm)
  have hphases : s.ctxs.map (·.phase) = [.deferred, .running] := by
    subst hs
    decide
  have hfeed : s.feed = none := by
    subst hs
    decide
  refine ⟨s, hreach, hacc, ?_, hfeed, ?_, ?_, hphases, fun h => ?_⟩
  · subst hs
    decide
  · subst hs
    decide
  · subst hs
    decide
  -- a request that waits for its dispatch while no feed is going on
  · have hfirst : (s.ctxs.map (·.phase))[0]? = some .deferred := by
      rw [hphases]
      rfl
    rw [List.getElem?_map] at hfirst
    obtain ⟨c, hc, hp⟩ := Option.map_eq_some_iff.1 hfirst
    obtain ⟨-, rest, hrest⟩ := (h hacc).waiting 0 c hc hp
    cases hfeed.symm.trans hrest

end LocalPost.Http.Httptools
