import LocalPost.Core.ChunkedCoding
import LocalPost.Http.Writer.Native

/-!
# Writing a response on h11

The context asks `h11.Connection` for the wire bytes of every event. The connection is a library:
`Documented` is what it says about framing. It counts the bytes of a body with a declared length,
raises `LocalProtocolError` when there are too many or too few, and does not hold a connection open
on which either side has asked to close it. The bytes that `sendfile` moves pass it by: they are
announced to it by a placeholder.
-/

set_option autoImplicit false

namespace LocalPost.Http.Writer.H11

open LocalPost.Core

/-- `h11.Connection` on the side that writes. `start` is a connection that has read a request, by
its method and whether it allows another one; `none` is a `LocalProtocolError`. A response is
answered with the head that goes on the wire, the other events with bytes. -/
structure Connection (ω : Type) where
  start : Bytes → Bool → ω
  sendResponse : ω → Response → Option (Response × ω)
  sendData : ω → Bytes → Option (Bytes × ω)
  sendPlaceholder : ω → Nat → Option ω
  sendEndOfMessage : ω → Option (Bytes × ω)
  mustClose : ω → Bool

/-- How the bytes of a body are framed: by the number that is left of a declared length, in chunks,
or by the end of the connection. -/
inductive Framing where
  | length (left : Nat)
  | chunked
  | close
  deriving DecidableEq, Repr

/-- The framing behind some more bytes. -/
def Framing.step : Framing → Nat → Option Framing
  | .length left, n => if n ≤ left then some (.length (left - n)) else none
  | .chunked, _ => some .chunked
  | .close, _ => some .close

/-- The bytes of data on the wire. -/
def Framing.encode : Framing → Bytes → Bytes
  | .chunked, b => if b = [] then [] else ChunkedCoding.frame b
  | .length _, b => b
  | .close, b => b

/-- The bytes of the end of the message on the wire. -/
def Framing.terminator : Framing → Bytes
  | .chunked => ChunkedCoding.lastChunk
  | .length _ => []
  | .close => []

/-- Counting keeps the kind of framing. -/
theorem Framing.step_same {f f' : Framing} {n : Nat} (h : f.step n = some f') :
    f'.encode = f.encode ∧ f'.terminator = f.terminator := by
  cases f with
  | length left =>
    rw [step] at h
    split at h
    · cases h
      exact ⟨rfl, rfl⟩
    · cases h
  | chunked =>
    cases h
    exact ⟨rfl, rfl⟩
  | close =>
    cases h
    exact ⟨rfl, rfl⟩

theorem Framing.step_zero (f : Framing) : f.step 0 = some f := by
  cases f with
  | length left => rw [step, if_pos (Nat.zero_le left), Nat.sub_zero]
  | chunked => rfl
  | close => rfl

/-- Two chunks are counted as one of both lengths. -/
theorem Framing.step_step {f f' f'' : Framing} {n m : Nat} (h : f.step n = some f')
    (h' : f'.step m = some f'') : f.step (n + m) = some f'' := by
  cases f with
  | length left =>
    rw [step] at h
    split at h
    · cases h
      rw [step] at h'
      split at h'
      · cases h'
        rw [step, if_pos (by omega), Nat.sub_add_eq]
      · cases h'
    · cases h
  | chunked =>
    cases h
    exact h'
  | close =>
    cases h
    exact h'

/-- When nothing is left of a declared length, it has been used up. -/
theorem Framing.length_of_step {f' : Framing} {left n : Nat}
    (h : (Framing.length left).step n = some f')
    (hzero : ∀ k, f' = .length k → k = 0) : n = left := by
  rw [step] at h
  split at h
  · cases h
    have := hzero _ rfl
    omega
  · cases h

/-- The documentation of the library: what it frames how, that it counts, and which connections it
closes. `closes` says so of a request and its response. -/
structure Connection.Documented {ω : Type} (W : Connection ω) (framing : ω → Framing)
    (closing : ω → Bool) (closes : Bytes → Bool → Response → Bool) : Prop where
  response : ∀ method keepAlive r head w,
    W.sendResponse (W.start method keepAlive) r = some (head, w) →
    head.statusCode = r.statusCode ∧ closing w = closes method keepAlive r ∧
    (mayCarryBody method r.statusCode = false → framing w = .length 0) ∧
    (mayCarryBody method r.statusCode = true →
      (∀ n, head.Declares n → framing w = .length n) ∧ (∀ n, r.Declares n → head.Declares n) ∧
      (framing w = .chunked ↔ (scanResponseHeaders head.headers).hasChunked = true))
  data : ∀ w b b' w', W.sendData w b = some (b', w') →
    b' = (framing w).encode b ∧ (framing w).step b.length = some (framing w') ∧
    closing w' = closing w
  placeholder : ∀ w n w', W.sendPlaceholder w n = some w' →
    (framing w).step n = some (framing w') ∧ closing w' = closing w
  endOfMessage : ∀ w b w', W.sendEndOfMessage w = some (b, w') →
    b = (framing w).terminator ∧ (∀ n, framing w = .length n → n = 0) ∧
    W.mustClose w' = closing w

/-- A connection as documented: its method, its framing, and whether it closes. -/
structure Plain where
  method : Bytes
  framing : Framing
  closing : Bool
  deriving DecidableEq, Repr

namespace Plain

/-- The declared length, or the chunked coding where there is none. -/
def ofHeaders (r : Response) : Option (Response × Framing) :=
  if (scanResponseHeaders r.headers).hasChunked then some (r, .chunked)
  else
    match r.headers.find? (fun header => header.1.lower = Bytes.contentLengthName) with
    | some header =>
      match Bytes.int header.2 with
      | some (.ofNat n) => some (r, .length n)
      | _ => none
    | none =>
      some ({ r with headers := r.headers ++ [(transferEncodingName, chunkedValue)] }, .chunked)

/-- Both sides may close. -/
def closes (_ : Bytes) (keepAlive : Bool) (r : Response) : Bool :=
  !keepAlive || (scanResponseHeaders r.headers).hasClose

def sendResponse (p : Plain) (r : Response) : Option (Response × Plain) :=
  let closing := p.closing || (scanResponseHeaders r.headers).hasClose
  if mayCarryBody p.method r.statusCode then
    (ofHeaders r).map fun result => (result.1, ⟨p.method, result.2, closing⟩)
  else some (r, ⟨p.method, .length 0, closing⟩)

/-- The connection. -/
def connection : Connection Plain where
  start := fun method keepAlive => ⟨method, .length 0, !keepAlive⟩
  sendResponse := sendResponse
  sendData := fun p b =>
    (p.framing.step b.length).map fun f => (p.framing.encode b, { p with framing := f })
  sendPlaceholder := fun p n => (p.framing.step n).map fun f => { p with framing := f }
  sendEndOfMessage := fun p =>
    match p.framing with
    | .length (_ + 1) => none
    | f => some (f.terminator, p)
  mustClose := Plain.closing

/-- The framing that h11 takes from the headers of a response. -/
theorem ofHeaders_spec {r head : Response} {f : Framing}
    (h : ofHeaders r = some (head, f)) :
    head.statusCode = r.statusCode ∧ (∀ n, head.Declares n → f = .length n) ∧
    (∀ n, r.Declares n → head.Declares n) ∧
    (f = .chunked ↔ (scanResponseHeaders head.headers).hasChunked = true) := by
  rw [ofHeaders] at h
  split at h
  -- chunked: a header with a length excludes it
  · rename_i hchunked
    cases h
    refine ⟨rfl, fun n hdeclares => ?_, fun _ h => h, by simp [hchunked]⟩
    rw [hdeclares.scan.2] at hchunked
    cases hchunked
  · rename_i hchunked
    split at h
    -- the first Content-Length is the length that counts
    · rename_i header hfind
      split at h
      · rename_i n hint
        cases h
        have hname : header.1.lower = Bytes.contentLengthName := by
          simpa using List.find?_some hfind
        refine ⟨rfl, fun m hdeclares => ?_, fun _ h => h, by simp [hchunked]⟩
        have hm := hdeclares.2.1 header (List.mem_of_find?_eq_some hfind) hname
        rw [hint, Option.some.injEq] at hm
        rw [Int.ofNat.inj hm]
      · cases h
    -- neither of them: h11 adds `Transfer-Encoding: chunked`
    · rename_i hnone
      cases h
      refine ⟨rfl,
        fun n hdeclares => absurd hdeclares (not_declares_append r n), fun n hdeclares => ?_,
        by simp [hasChunked_append]⟩
      obtain ⟨header, hmem, hname⟩ := hdeclares.1
      exact absurd hname (by simpa using List.find?_eq_none.1 hnone header hmem)

/-- The plain connection behaves as documented. -/
theorem documented : connection.Documented Plain.framing Plain.closing closes where
  response := by
    intro method keepAlive r head w h
    change sendResponse _ r = _ at h
    rw [sendResponse] at h
    cases hcarry : mayCarryBody method r.statusCode with
    -- a response that may carry no body is not framed by its headers
    | false =>
      rw [if_neg (by simp [connection, hcarry])] at h
      cases h
      exact ⟨rfl, rfl, fun _ => rfl, fun h => Bool.noConfusion h⟩
    | true =>
      rw [if_pos (by exact hcarry)] at h
      obtain ⟨⟨head', f⟩, hresult, heq⟩ := Option.map_eq_some_iff.1 h
      cases heq
      obtain ⟨hstatus, hlength, hkeeps, hchunked⟩ := ofHeaders_spec hresult
      exact ⟨hstatus, rfl, fun h => Bool.noConfusion h, fun _ => ⟨hlength, hkeeps, hchunked⟩⟩
  data := by
    intro w b b' w' h
    obtain ⟨f, hstep, heq⟩ := Option.map_eq_some_iff.1 h
    cases heq
    exact ⟨rfl, hstep, rfl⟩
  placeholder := by
    intro w n w' h
    obtain ⟨f, hstep, rfl⟩ := Option.map_eq_some_iff.1 h
    exact ⟨hstep, rfl⟩
  endOfMessage := by
    intro w b w' h
    -- the message may end when nothing of its length is left
    change (match w.framing with
      | .length (_ + 1) => none
      | f => some (f.terminator, w)) = _ at h
    split at h
    · cases h
    · rename_i hnot
      cases h
      refine ⟨rfl, fun n hn => ?_, rfl⟩
      cases n with
      | zero => rfl
      | succ n => exact absurd hn (hnot n)

end Plain

/-- The fields of `_HTTPReqCtx` and of its connection that the response path reads and writes.
`drained` says whether the parser reaches the end of the request with what it has been fed. -/
structure Ctx (ω : Type) where
  method : Bytes
  responseStatus : Option Nat
  parser : ω
  drained : Bool
  isOpen : Bool
  out : Out

variable {ω : Type} (W : Connection ω)

namespace Ctx

/-- A new request on an open connection. -/
def start (method : Bytes) (keepAlive drained : Bool) (faults : List (Option Nat)) : Ctx ω where
  method := method.upper
  responseStatus := none
  parser := W.start method keepAlive
  drained := drained
  isOpen := true
  out := ⟨[], none, faults⟩

/-- The response that is handed to the parser: one to a HEAD request that has no framing declares no
bytes. -/
def toSend (response : Response) (c : Ctx ω) : Response :=
  if c.method = headMethod ∧ (scanResponseHeaders response.headers).hasFraming = false then
    { response with headers := response.headers ++ [(Bytes.contentLengthName, [48])] }
  else response

/-- `start_response`. -/
def startResponse (response : Response) (c : Ctx ω) : Outcome (Ctx ω) :=
  let c := { c with responseStatus := some response.statusCode }
  match W.sendResponse c.parser (c.toSend response) with
  | none => .raised .localProtocolError c
  | some (head, w) => .done { c with parser := w, out := { c.out with pending := some head } }

/-- The pending head goes out with the bytes behind it. -/
def flush (b : Bytes) (c : Ctx ω) : Outcome (Ctx ω) :=
  (c.out.flush b).map fun out => { c with out := out }

/-- `send`. -/
def send (chunk : Bytes) (c : Ctx ω) : Outcome (Ctx ω) :=
  match W.sendData c.parser chunk with
  | none => .raised .localProtocolError c
  | some (payload, w) => flush payload { c with parser := w }

/-- `BaseHTTPConn.close`. -/
def close (c : Ctx ω) : Ctx ω := { c with isOpen := false }

/-- The end of `finish_response`: the connection is given back, or closed when the request is not at
its end. -/
def drain (c : Ctx ω) : Outcome (Ctx ω) := .done (if c.drained then c else c.close)

/-- `finish_response`. -/
def finishResponse (c : Ctx ω) : Outcome (Ctx ω) :=
  match W.sendEndOfMessage c.parser with
  | none => .raised .localProtocolError c
  | some (payload, w) => (flush payload { c with parser := w }).andThen drain

/-- The placeholder for the bytes of the file. -/
def announce (count : Nat) (c : Ctx ω) : Outcome (Ctx ω) :=
  match W.sendPlaceholder c.parser count with
  | none => .raised .localProtocolError c
  | some w => .done { c with parser := w }

/-- `socket.sendfile`: what the kernel moves goes out behind everything else. -/
def socketSendfile (moved : Bytes) (fails : Bool) (c : Ctx ω) : Outcome (Ctx ω) :=
  let c := { c with out := { c.out with wire := c.out.wire ++ [.bytes moved] } }
  if fails then .raised .sendFailed c else .done c

/-- `sendfile`. -/
def sendfile (response : Response) (count : Nat) (moved : Bytes) (fails : Bool) (c : Ctx ω) :
    Outcome (Ctx ω) :=
  if contentLength response.headers = some (count : Int) then
    ((((c.startResponse W response).andThen (announce W count)).andThen (flush [])).andThen
      (socketSendfile moved fails)).andThen (finishResponse W)
  else .raised .valueError c

/-- The context of this backend. -/
def methods : NativeReqCtx (Ctx ω) where
  startResponse := startResponse W
  send := send W
  finishResponse := finishResponse W
  sendfile := sendfile W
  close := close
  responseStatus := Ctx.responseStatus

/-! ## The laws -/

theorem flush_status (b : Bytes) (c : Ctx ω) :
    (c.flush b).state.responseStatus = c.responseStatus := by
  rw [flush]
  cases c.out.flush b <;> rfl

theorem startResponse_status (r : Response) (c : Ctx ω) :
    (c.startResponse W r).state.responseStatus = some r.statusCode := by
  rw [startResponse]
  split <;> rfl

/-- The end of a response does not touch its status. -/
theorem finishResponse_status (c : Ctx ω) :
    (c.finishResponse W).state.responseStatus = c.responseStatus := by
  rw [finishResponse]
  split
  · rfl
  · rename_i payload w _
    refine (methods W).status_andThen (flush_status payload { c with parser := w }) fun c' hc' => ?_
    rw [drain]
    split
    · exact hc'
    · exact hc'

theorem socketSendfile_status (moved : Bytes) (fails : Bool) (c : Ctx ω) :
    (c.socketSendfile moved fails).state.responseStatus = c.responseStatus := by
  cases fails <;> rfl

theorem announce_status (count : Nat) (c : Ctx ω) :
    (c.announce W count).state.responseStatus = c.responseStatus := by
  rw [announce]
  split <;> rfl

/-- The methods of the h11 contexts are lawful: the status comes with the head and stays. -/
theorem lawful_methods : (methods W).Lawful Ctx.isOpen where
  startResponse := startResponse_status W
  send := fun b c => by
    change (c.send W b).state.responseStatus = _
    rw [send]
    split
    · rfl
    · exact flush_status _ _
  finishResponse := finishResponse_status W
  sendfile := fun r n moved fails c => by
    -- the refused transfer leaves the context as it was, the other one sets the status
    change c.sendfile W r n moved fails = _ ∨
      (c.sendfile W r n moved fails).state.responseStatus = _
    rw [sendfile]
    split
    · have hstart := startResponse_status W r c
      have hannounce := (methods W).status_andThen hstart fun c' hc' =>
        (announce_status W n c').trans hc'
      have hflush := (methods W).status_andThen hannounce fun c' hc' =>
        (flush_status [] c').trans hc'
      have hmoved := (methods W).status_andThen hflush fun c' hc' =>
        (socketSendfile_status moved fails c').trans hc'
      exact .inr ((methods W).status_andThen hmoved fun c' hc' =>
        (finishResponse_status W c').trans hc')
    · exact .inl rfl
  -- a transfer that raises does not come to its end
  sendfile_fails := fun r n moved c c' h => by
    change c.sendfile W r n moved true = .done c' at h
    rw [sendfile] at h
    split at h
    · obtain ⟨c₁, hmove, -⟩ := Outcome.andThen_done h
      obtain ⟨c₂, -, hmove⟩ := Outcome.andThen_done hmove
      cases hmove
    · cases h
  close := fun _ => rfl

/-! ## What the methods write -/

/-- The bytes `b` have gone out behind the pending head, the parser has counted `n`, and nothing
else has changed. -/
structure Pushes (framing : ω → Framing) (closing : ω → Bool) (b : Bytes) (n : Nat) (c c' : Ctx ω) :
    Prop where
  out : c.out.Pushes b c'.out
  step : (framing c.parser).step n = some (framing c'.parser)
  closing : closing c'.parser = closing c.parser
  frame : c' = { c with parser := c'.parser, out := c'.out }

variable {W} {framing : ω → Framing} {closing : ω → Bool} {closes : Bytes → Bool → Response → Bool}

namespace Pushes

variable {b b' : Bytes} {n m : Nat} {c c' c'' : Ctx ω}

theorem refl (c : Ctx ω) : Pushes framing closing [] 0 c c :=
  ⟨Out.Pushes.refl c.out, Framing.step_zero _, rfl, rfl⟩

theorem trans (h : Pushes framing closing b n c c') (h' : Pushes framing closing b' m c' c'') :
    Pushes framing closing (b ++ b') (n + m) c c'' where
  out := h.out.trans h'.out
  step := Framing.step_step h.step h'.step
  closing := h'.closing.trans h.closing
  frame := h'.frame.trans
    (congrArg (fun k : Ctx ω => { k with parser := c''.parser, out := c''.out }) h.frame)

end Pushes

/-- A write that returns has put its bytes on the wire. -/
theorem flush_done {b : Bytes} {c c' : Ctx ω} (h : c.flush b = .done c') :
    c.out.Pushes b c'.out ∧ c' = { c with out := c'.out } := by
  rw [flush] at h
  cases hflush : c.out.flush b with
  | done out =>
    rw [hflush] at h
    cases h
    exact ⟨Out.flush_done hflush, rfl⟩
  | raised e out =>
    rw [hflush] at h
    cases h

/-- The context once the parser has taken the response. -/
def started (r : Response) (head : Response) (w : ω) (c : Ctx ω) : Ctx ω :=
  { c with
    responseStatus := some r.statusCode
    parser := w
    out := { c.out with pending := some head } }

theorem startResponse_done {r : Response} {c c' : Ctx ω} (h : c.startResponse W r = .done c') :
    ∃ head w, W.sendResponse c.parser (c.toSend r) = some (head, w) ∧ c' = c.started r head w := by
  rw [startResponse] at h
  split at h
  · cases h
  · rename_i head w hsend
    cases h
    exact ⟨head, w, hsend, rfl⟩

/-- A chunk that is sent is on the wire, encoded. -/
theorem send_done (hW : W.Documented framing closing closes) {chunk : Bytes} {c c' : Ctx ω}
    (h : c.send W chunk = .done c') :
    Pushes framing closing ((framing c.parser).encode chunk) chunk.length c c' := by
  rw [send] at h
  split at h
  · cases h
  · rename_i payload w hsend
    obtain ⟨rfl, hstep, hclosing⟩ := hW.data _ _ _ _ hsend
    obtain ⟨hout, hframe⟩ := flush_done h
    have hparser : c'.parser = w := by rw [hframe]
    refine ⟨hout, ?_, ?_, ?_⟩
    · rw [hparser]
      exact hstep
    · rw [hparser]
      exact hclosing
    · rw [hparser]
      exact hframe

/-- The chunks that are sent are on the wire, encoded. -/
theorem sendChunks_done (hW : W.Documented framing closing closes) {chunks : List Bytes}
    {c c' : Ctx ω} (h : (methods W).sendChunks chunks c = .done c') :
    Pushes framing closing (chunks.flatMap (framing c.parser).encode)
      chunks.flatten.length c c' := by
  induction chunks generalizing c with
  | nil =>
    cases h
    exact Pushes.refl _
  | cons chunk chunks ih =>
    obtain ⟨c₁, hsend, hrest⟩ := Outcome.andThen_done h
    have hpush := send_done hW hsend
    have hpush' := ih hrest
    rw [(Framing.step_same hpush.step).1] at hpush'
    rw [List.flatMap_cons, List.flatten_cons, List.length_append]
    exact hpush.trans hpush'

theorem announce_done (hW : W.Documented framing closing closes) {count : Nat} {c c' : Ctx ω}
    (h : c.announce W count = .done c') : Pushes framing closing [] count c c' := by
  rw [announce] at h
  split at h
  · cases h
  · rename_i w hsend
    cases h
    obtain ⟨hstep, hclosing⟩ := hW.placeholder _ _ _ hsend
    exact ⟨Out.Pushes.refl c.out, hstep, hclosing, rfl⟩

theorem socketSendfile_done {moved : Bytes} {fails : Bool} {c c' : Ctx ω}
    (h : c.socketSendfile moved fails = .done c') : Pushes framing closing moved 0 c c' := by
  cases fails with
  | false =>
    cases h
    exact ⟨Out.pushes_bytes moved c.out, Framing.step_zero _, rfl, rfl⟩
  | true => cases h

/-- A response that is finished has its terminator on the wire and no byte to come. -/
theorem finishResponse_done (hW : W.Documented framing closing closes) {c c' : Ctx ω}
    (h : c.finishResponse W = .done c') :
    c.out.Pushes (framing c.parser).terminator c'.out ∧
    (∀ n, framing c.parser = .length n → n = 0) ∧ W.mustClose c'.parser = closing c.parser ∧
    c'.method = c.method ∧ (c'.isOpen = true → c.isOpen = true) := by
  rw [finishResponse] at h
  split at h
  · cases h
  · rename_i payload w hsend
    obtain ⟨rfl, hzero, hclosing⟩ := hW.endOfMessage _ _ _ hsend
    obtain ⟨c₁, hflush, hdrain⟩ := Outcome.andThen_done h
    obtain ⟨hout, hframe⟩ := flush_done hflush
    have hparser : c₁.parser = w := by rw [hframe]
    have hmethod : c₁.method = c.method := by rw [hframe]
    have hopen : c₁.isOpen = c.isOpen := by rw [hframe]
    rw [drain, Outcome.done.injEq] at hdrain
    rw [← hdrain]
    split
    · exact ⟨hout, hzero, by rw [hparser, hclosing], hmethod, fun h => by rw [← hopen, h]⟩
    · exact ⟨hout, hzero, (congrArg W.mustClose hparser).trans hclosing,
        hmethod, fun h => by cases h⟩

/-- The bytes behind the head of an answer that comes to its end. -/
def answerBytes (f : Framing) : Answer → Bytes
  | .complete _ body => (body.map f.encode).getD [] ++ f.terminator
  | .stream _ chunks _ => chunks.flatMap f.encode ++ f.terminator
  | .sendfile _ _ moved _ => moved ++ f.terminator

/-- The length that the parser counts. -/
def counted : Answer → Nat
  | .complete _ body => (body.getD []).length
  | .stream _ chunks _ => chunks.flatten.length
  | .sendfile _ count _ _ => count

/-- What a body between the head and the end of the message amounts to. -/
theorem end_done (hW : W.Documented framing closing closes) {b : Bytes} {n : Nat}
    {r head : Response}
    {w : ω} {c c₁ c' : Ctx ω} (h : Pushes framing closing b n (c.started r head w) c₁)
    (hend : c₁.finishResponse W = .done c') :
    (c.started r head w).out.Pushes (b ++ (framing w).terminator) c'.out ∧
    (∀ left, framing w = .length left → n = left) ∧ W.mustClose c'.parser = closing w ∧
    c'.method = c.method := by
  obtain ⟨hout, hzero, hclosing, hmethod, -⟩ := finishResponse_done hW hend
  have hstep : (framing w).step n = some (framing c₁.parser) := h.step
  rw [(Framing.step_same hstep).2] at hout
  refine ⟨h.out.trans hout, fun left hleft => ?_, hclosing.trans h.closing, ?_⟩
  · rw [hleft] at hstep
    exact Framing.length_of_step hstep hzero
  · rw [hmethod, h.frame]
    rfl

/-- An answer that comes to its end has written its bytes behind its head, and the parser has
counted them. -/
theorem answer_done (hW : W.Documented framing closing closes) {a : Answer} {c c' : Ctx ω}
    (h : (methods W).answer a c = .done c') (hfinish : a.finishes = true) :
    ∃ head w, W.sendResponse c.parser (c.toSend a.response) = some (head, w) ∧
      (c.started a.response head w).out.Pushes (answerBytes (framing w) a) c'.out ∧
      (∀ left, framing w = .length left → counted a = left) ∧
      W.mustClose c'.parser = closing w ∧ c'.method = c.method := by
  -- Each call: the head, what it pushes into the framing, and the end of the message.
  cases a with
  | complete response body =>
    obtain ⟨c₂, hbody, hend⟩ := Outcome.andThen_done h
    obtain ⟨c₁, hstart, hbody⟩ := Outcome.andThen_done hbody
    obtain ⟨head, w, hsend, rfl⟩ := startResponse_done hstart
    have hpush : Pushes framing closing ((body.map (framing w).encode).getD [])
        (body.getD []).length (c.started response head w) c₂ := by
      cases body with
      | none =>
        cases hbody
        exact Pushes.refl _
      | some body => exact send_done hW hbody
    exact ⟨head, w, hsend, end_done hW hpush hend⟩
  | stream response chunks ending =>
    obtain ⟨c₂, hchunks, hend⟩ := Outcome.andThen_done h
    obtain ⟨c₁, hstart, hchunks⟩ := Outcome.andThen_done hchunks
    obtain ⟨head, w, hsend, rfl⟩ := startResponse_done hstart
    have hpush : Pushes framing closing (chunks.flatMap (framing w).encode) chunks.flatten.length
        (c.started response head w) c₂ := sendChunks_done hW hchunks
    have hending : ending = .finished := of_decide_eq_true hfinish
    rw [hending] at hend
    exact ⟨head, w, hsend, end_done hW hpush hend⟩
  | sendfile response count moved fails =>
    have hsendfile : c.sendfile W response count moved fails = .done c' := h
    rw [sendfile] at hsendfile
    split at hsendfile
    · obtain ⟨c₄, hmove, hend⟩ := Outcome.andThen_done hsendfile
      obtain ⟨c₃, hflush, hmove⟩ := Outcome.andThen_done hmove
      obtain ⟨c₂, hannounce, hflush⟩ := Outcome.andThen_done hflush
      obtain ⟨c₁, hstart, hannounce⟩ := Outcome.andThen_done hannounce
      obtain ⟨head, w, hsend, rfl⟩ := startResponse_done hstart
      obtain ⟨hout, hframe⟩ := flush_done hflush
      -- the flush of the head pushes nothing
      have hpush : Pushes framing closing [] 0 c₂ c₃ :=
        ⟨hout, by rw [hframe]; exact Framing.step_zero _, by rw [hframe], by rw [hframe]⟩
      have hpush' := ((announce_done hW hannounce).trans hpush).trans (socketSendfile_done hmove)
      exact ⟨head, w, hsend, end_done hW hpush' hend⟩
    · cases hsendfile

/-- Without the chunked coding, an answer is what was handed over. -/
theorem answerBytes_raw {f : Framing} (hf : f ≠ .chunked) (a : Answer) :
    answerBytes f a = a.handed := by
  have hencode : f.encode = id ∧ f.terminator = [] := by
    cases f with
    | length left => exact ⟨rfl, rfl⟩
    | chunked => exact absurd rfl hf
    | close => exact ⟨rfl, rfl⟩
  cases a with
  | complete response body =>
    rw [answerBytes, hencode.1, hencode.2, Option.map_id, id, List.append_nil]
    rfl
  | stream response chunks ending =>
    rw [answerBytes, hencode.1, hencode.2, List.append_nil, List.flatMap_id]
    rfl
  | sendfile response count moved fails =>
    rw [answerBytes, hencode.2, List.append_nil]
    rfl

theorem upper_ne_head {method : Bytes} (h : method.upper ≠ headMethod) : method ≠ headMethod := by
  rintro rfl
  exact h (by decide)

theorem upper_ne_connect {method : Bytes} (h : method.upper ≠ connectMethod) :
    method ≠ connectMethod := by
  rintro rfl
  exact h (by decide)

/-- Whether a response may carry a body is judged by the method as it came; the neutral request has
it in upper case. -/
theorem mayCarryBody_of_upper {method : Bytes} {statusCode : Nat}
    (h : mayCarryBody method.upper statusCode = true) : mayCarryBody method statusCode = true := by
  rw [mayCarryBody, responseAllowsBody] at h ⊢
  simp only [Bool.and_eq_true, decide_eq_true_eq, Bool.not_eq_true', Bool.and_eq_false_iff,
    decide_eq_false_iff_not] at h ⊢
  obtain ⟨⟨hhead, hstatus⟩, hconnect⟩ := h
  refine ⟨⟨upper_ne_head hhead, hstatus⟩, ?_⟩
  rcases hconnect with (hconnect | hlow) | hhigh
  · exact .inl (.inl (upper_ne_connect hconnect))
  · exact .inl (.inr hlow)
  · exact .inr hhigh

/-- The parser has counted the body that the head declares; so an answer that has gone out is exact
when the kernel has moved what was announced to the parser. -/
theorem exact_of_transfersAll (hW : W.Documented framing closing closes) {a : Answer}
    {method : Bytes} {keepAlive drained : Bool} {faults : List (Option Nat)} {c' : Ctx ω}
    (h : (methods W).answer a (Ctx.start W method keepAlive drained faults) = .done c')
    (hfinish : a.finishes = true) (hall : a.TransfersAll) :
    Exact c'.method c'.out.wire := by
  obtain ⟨head, w, hsend, hpush, hcount, -, hmethod⟩ := answer_done hW h hfinish
  obtain ⟨hstatus, -, -, hframing⟩ := hW.response _ _ _ _ _ hsend
  intro r hr n hdeclares hbody
  -- a head on the wire is the one that this call has sent
  rcases hpush.heads r hr with hmem | hpending
  · cases hmem
  · cases hpending
    rw [hmethod] at hbody
    have hcarry := mayCarryBody_of_upper hbody
    rw [hstatus] at hcarry
    have hleft := (hframing hcarry).1 n hdeclares
    rw [hpush.body, hleft, answerBytes_raw (by simp)]
    -- what was counted down is what the call has written
    have hcounted := hcount n hleft
    cases a with
    | complete response body => exact hcounted
    | stream response chunks ending => exact hcounted
    | sendfile response count moved fails =>
      have hlength : contentLength response.headers = some (count : Int) := by
        by_contra hne
        have hsendfile : (Ctx.start W method keepAlive drained faults).sendfile W response
          count moved
            fails = .done c' := h
        rw [sendfile, if_neg hne] at hsendfile
        cases hsendfile
      have hmoved : moved.length = count := hall hlength (by simpa [Answer.finishes] using hfinish)
      exact hmoved.trans hcounted

end Ctx

end LocalPost.Http.Writer.H11
