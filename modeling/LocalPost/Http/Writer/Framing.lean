import LocalPost.Http.Writer.Received

/-!
# Chunked responses on httptools

A response without a framing header, or with `Transfer-Encoding: chunked`, goes out in chunks: the
head first, one frame for each chunk of the body that is not empty, and one terminator. An empty
chunk writes nothing of its own, so the terminator cannot come early.
-/

set_option autoImplicit false

namespace LocalPost.Http.Writer

open LocalPost.Core

/-! ## One head on the wire -/

/-- A head and bytes behind it, nothing else. -/
def HeadAnd (r : Response) (b : Bytes) (wire : List Item) : Prop :=
  ∃ items, wire = .head r :: items ∧ (∀ item ∈ items, ∃ b', item = .bytes b') ∧ bodyBytes items = b

theorem HeadAnd.append {r : Response} {b : Bytes} {wire : List Item} (h : HeadAnd r b wire)
    (b' : Bytes) : HeadAnd r (b ++ b') (wire ++ [.bytes b']) := by
  obtain ⟨items, rfl, hbytes, rfl⟩ := h
  refine ⟨items ++ [.bytes b'], rfl, fun item hitem => ?_, ?_⟩
  · rcases List.mem_append.1 hitem with hitem | hitem
    · exact hbytes item hitem
    · rw [List.mem_singleton.1 hitem]
      exact ⟨_, rfl⟩
  · rw [bodyBytes_append, bodyBytes_bytes]

/-- The bytes `b`, and no other head, behind the head `r`: on the wire, or none of them yet and the
head still waiting. -/
def Out.Behind (r : Response) (b : Bytes) (o : Out) : Prop :=
  (o.pending = some r ∧ o.wire = [] ∧ b = []) ∨ (o.pending = none ∧ HeadAnd r b o.wire)

namespace Out

variable {r : Response} {b b' : Bytes} {o o' : Out}

/-- Every flush that succeeds sends the head. -/
theorem flush_pending (h : o.flush b = .done o') : o'.pending = none := by
  rw [Out.flush] at h
  cases hpending : o.pending with
  | some response =>
    rw [hpending] at h
    exact (sendAll_done h).2
  | none =>
    rw [hpending] at h
    by_cases hempty : b = []
    · simp only [if_pos hempty] at h
      cases h
      exact hpending
    · simp only [if_neg hempty] at h
      exact (sendAll_done h).2.trans hpending

/-- Bytes go out behind those before. -/
theorem Behind.flush (h : Behind r b o) (hflush : o.flush b' = .done o') :
    HeadAnd r (b ++ b') o'.wire := by
  rw [Out.flush] at hflush
  rcases h with ⟨hpending, hwire, rfl⟩ | ⟨hpending, hwritten⟩
  · rw [hpending] at hflush
    rw [(sendAll_done hflush).1, hwire]
    refine ⟨[.bytes b'], rfl, fun item hitem => ?_, bodyBytes_bytes b'⟩
    rw [List.mem_singleton.1 hitem]
    exact ⟨_, rfl⟩
  · rw [hpending] at hflush
    by_cases hempty : b' = []
    · simp only [if_pos hempty] at hflush
      cases hflush
      rw [hempty, List.append_nil]
      exact hwritten
    · simp only [if_neg hempty] at hflush
      rw [(sendAll_done hflush).1]
      exact hwritten.append b'

theorem Behind.of_flush (h : Behind r b o) (hflush : o.flush b' = .done o') :
    Behind r (b ++ b') o' :=
  .inr ⟨flush_pending hflush, h.flush hflush⟩

end Out

namespace Httptools

namespace Ctx

variable {r : Response} {b : Bytes} {c c' : Ctx}

/-- What `start_response` leaves waiting on a fresh context. -/
def headOf (c : Ctx) (r : Response) : Response :=
  if responseAllowsBody c.method r.statusCode && !(scanResponseHeaders r.headers).hasFraming then
    { r with headers := r.headers ++ [(transferEncodingName, chunkedValue)] }
  else r

theorem behind_startResponse (hwire : c.out.wire = []) :
    (c.startResponse r).out.Behind (c.headOf r) [] := .inl ⟨rfl, hwire, rfl⟩

/-- A chunk goes out as its frame; an empty one writes nothing of its own. -/
theorem behind_send {chunk : Bytes} {r : Response} (h : c.out.Behind r b)
    (hsend : c.send chunk = .done c') :
    c'.out.Behind r (b ++ pushed c.bodyAllowed c.chunked chunk) := by
  rw [send] at hsend
  rw [pushed]
  cases hallowed : c.bodyAllowed with
  | false =>
    rw [hallowed] at hsend
    exact h.of_flush (flush_done_out hsend)
  | true =>
    rw [hallowed, Bool.not_true, if_neg Bool.false_ne_true] at hsend
    rw [if_pos rfl]
    by_cases hempty : chunk = [] ∧ c.out.pending = none
    · rw [if_pos hempty] at hsend
      cases hsend
      rw [if_neg fun hframed => hframed.2 hempty.1, hempty.1, List.append_nil]
      exact h
    · rw [if_neg hempty] at hsend
      exact h.of_flush (flush_done_out hsend)

/-- The chunks stand behind the head and what was sent before. -/
theorem behind_sendChunks {chunks : List Bytes} (h : c.out.Behind r b)
    (hsend : methods.sendChunks chunks c = .done c') :
    c'.out.Behind r (b ++ chunks.flatMap (pushed c.bodyAllowed c.chunked)) := by
  induction chunks generalizing c b with
  | nil =>
    cases hsend
    rw [List.flatMap_nil, List.append_nil]
    exact h
  | cons chunk chunks ih =>
    obtain ⟨c₁, hone, hrest⟩ := Outcome.andThen_done hsend
    have hpush := send_done hone
    have hnext := ih (behind_send h hone) hrest
    rw [hpush.bodyAllowed, hpush.chunked] at hnext
    rw [List.flatMap_cons, ← List.append_assoc]
    exact hnext

end Ctx

/-! ## The round trip -/

/-- The headers ask for chunks: no `Content-Length`, and `chunked` in every `Transfer-Encoding`
there is. -/
def AsksChunks (headers : List (Bytes × Bytes)) : Prop :=
  (∀ header ∈ headers, header.1.lower ≠ Bytes.contentLengthName) ∧
  ∀ header ∈ headers, header.1.lower = transferEncodingName →
    contains chunkedValue header.2.lower = true

instance (headers : List (Bytes × Bytes)) : Decidable (AsksChunks headers) :=
  inferInstanceAs (Decidable (_ ∧ _))

/-- Such headers have no framing, or chunks. -/
theorem chunks_of_asksChunks {headers : List (Bytes × Bytes)} (h : AsksChunks headers) :
    (!(scanResponseHeaders headers).hasFraming || (scanResponseHeaders headers).hasChunked) =
    true := by
  -- the property of the scan is kept header by header
  have hall : ∀ (headers : List (Bytes × Bytes)) (s : Scan), AsksChunks headers →
      (!s.hasFraming || s.hasChunked) = true →
      (!(headers.foldl Scan.header s).hasFraming || (headers.foldl Scan.header s).hasChunked) =
          true := by
    intro headers
    induction headers with
    | nil =>
      intro s _ hs
      exact hs
    | cons header headers ih =>
      intro s hasks hs
      have hrest : AsksChunks headers := ⟨fun h' hmem => hasks.1 h' (List.mem_cons_of_mem _ hmem),
        fun h' hmem => hasks.2 h' (List.mem_cons_of_mem _ hmem)⟩
      refine ih _ hrest ?_
      rw [Scan.header]
      split
      · exact hs
      -- no header is a Content-Length, and each Transfer-Encoding is chunked
      · rw [if_neg (hasks.1 header List.mem_cons_self)]
        split
        · rename_i hname
          rw [hasks.2 header List.mem_cons_self hname, Bool.or_true]
          rfl
        · exact hs
  exact hall headers _ h rfl

/-- A chunked response, whatever the chunks: each send leaves the head with the frames of the chunks
so far that are not empty, the end adds the one terminator, and a client decodes the chunks and
nothing else. All sends go through when the socket has no faults. -/
theorem chunked_round_trip {method : Bytes} {r : Response}
    (hallowed : responseAllowsBody method r.statusCode = true)
    (hheaders : AsksChunks r.headers) (keepAlive closeAfterResponse : Bool)
    (faults : List (Option Nat)) (chunks : List Bytes) :
    let c := Ctx.start method keepAlive closeAfterResponse faults
    (∀ c₁, Ctx.methods.sendChunks chunks (c.startResponse r) = .done c₁ →
      c₁.out.Behind (c.headOf r) ((chunks.filter (· ≠ [])).flatMap ChunkedCoding.frame) ∧
      ∀ c₂, c₁.finishResponse = .done c₂ → ∃ body, HeadAnd (c.headOf r) body c₂.out.wire ∧
        body = (chunks.filter (· ≠ [])).flatMap ChunkedCoding.frame ++ ChunkedCoding.lastChunk ∧
        ChunkedCoding.decode body = some chunks.flatten) ∧
    (scanResponseHeaders (c.headOf r).headers).hasChunked = true ∧
    (faults = [] → ∃ c₁ c₂, Ctx.methods.sendChunks chunks (c.startResponse r) = .done c₁ ∧
      c₁.finishResponse = .done c₂) := by
  intro c
  have hbody : (c.startResponse r).bodyAllowed = true := hallowed
  have hasks := chunks_of_asksChunks hheaders
  have hchunked : (c.startResponse r).chunked = true := by
    change (false || (responseAllowsBody method r.statusCode && _)) = true
    rw [hallowed, Bool.false_or, Bool.true_and]
    exact hasks
  -- Both flags are on, so a send pushes frames, and an empty chunk nothing.
  have hpushed : Ctx.pushed true true = fun chunk => if chunk = [] then
    [] else ChunkedCoding.frame chunk :=
    funext pushed_chunked
  have hframes := flatMap_frames chunks
  have hdecode := decode_chunks chunks
  rw [hframes] at hdecode
  refine ⟨fun c₁ hsend => ?_, ?_, fun hfaults => ?_⟩
  · have hbehind := Ctx.behind_sendChunks (Ctx.behind_startResponse rfl) hsend
    rw [hbody, hchunked, hpushed, hframes, List.nil_append] at hbehind
    refine ⟨hbehind, fun c₂ hfinish => ⟨_, ?_, rfl, hdecode⟩⟩
    have hkept : c₁.chunked = true := (Ctx.sendChunks_done hsend).chunked.trans hchunked
    rw [Ctx.finishResponse, hkept, if_pos rfl] at hfinish
    exact hbehind.flush (Ctx.flush_done_out hfinish)
  · rw [Ctx.headOf, show c.method = method from rfl, hallowed, Bool.true_and]
    cases hframing : (scanResponseHeaders r.headers).hasFraming with
    | false => exact hasChunked_append r.headers
    | true =>
      rw [hframing] at hasks
      exact hasks
  · obtain ⟨c₁, hsend, hfaults₁⟩ :=
      Ctx.sendChunks_of_no_faults (c := c.startResponse r) hfaults chunks
    obtain ⟨c₂, hfinish, -⟩ := Ctx.flush_of_no_faults hfaults₁
      (if c₁.chunked then ChunkedCoding.lastChunk else [])
    exact ⟨c₁, c₂, hsend, hfinish⟩

/-- `200` without a framing header, and three chunks of which one is empty. -/
theorem chunked_round_trip_hello :
    let c := Ctx.start [71, 69, 84] true false []
    ∃ c₁ c₂ body, Ctx.methods.sendChunks [[104, 105], [], [33]] (c.startResponse ⟨200, [], []⟩) =
      .done c₁ ∧ c₁.finishResponse = .done c₂ ∧ HeadAnd (c.headOf ⟨200, [], []⟩) body c₂.out.wire ∧
        ChunkedCoding.decode body = some [104, 105, 33] := by
  intro c
  obtain ⟨hrun, -, htotal⟩ := @chunked_round_trip [71, 69, 84] ⟨200, [], []⟩ (by decide) (by decide)
    true false [] [[104, 105], [], [33]]
  obtain ⟨c₁, c₂, hsend, hfinish⟩ := htotal rfl
  obtain ⟨body, hwire, -, hdecode⟩ := (hrun c₁ hsend).2 c₂ hfinish
  exact ⟨c₁, c₂, body, hsend, hfinish, hwire, hdecode⟩

end Httptools

end LocalPost.Http.Writer
