import LocalPost.Core.ChunkedCoding
import LocalPost.Http.SocketMode.Switching

/-!
# The httptools backend

`HTTPConn` and `_HTTPReqCtx` of `server_httptools.py`. `feed_data` is outside: an answer says which
callbacks it fires and whether it raises behind them. A request's handler runs inside the callback,
also when it is a further request in what `receive` reads. Every method keeps the invariant,
whatever is raised at whatever call.
-/

set_option autoImplicit false

namespace LocalPost.Http.SocketMode.Httptools

open LocalPost.Core LocalPost.Http.Base

variable (cfg : Config)

/-! ## Callbacks and `_feed` -/

/-- `Expect: 100-continue` among the headers. -/
def expects100 (headers : List (Bytes × Bytes)) : Bool :=
  headers.any fun header => header.1 = Bytes.expectName ∧ header.2.lower = Bytes.continueValue

/-- `on_headers_complete`; `serve` runs the handler and recovers from what it raises. -/
def onHeadersComplete (serve : HandlerRun → Nat → Prog PUnit) (c : Nat) (method : Bytes)
    (headers : List (Bytes × Bytes)) (keepAlive : Bool) (handler : HandlerRun) : Prog PUnit := do
  let expect100 := expects100 headers
  if (contentLength headers).any fun cl => (cfg.maxBodySize : Int) < cl then
    setConn c fun h => { h with bodyTooLarge := true, oversize := true, expect100 := expect100 }
  else
    let k := (← get).next
    modify fun s =>
      { s with
        ctxs := Function.update s.ctxs k (Ctx.fresh c method expect100 keepAlive), next := k + 1 }
    setConn c fun h => { h with
      expect100 := expect100
      oversize := false
      current := some k
      bodyBuf := []
      bodyEom := false
      messageComplete := false }
    serve handler k
    let s ← get
    onlyIf (s.sel.tracked c ∧ (s.conns c).responseStarted ∧ (s.conns c).expect100 ∧
      !(s.ctxs k).continueSent)
      (setConn c fun h => { h with closeAfterResponse := true, messageComplete := true })

/-- `on_body`. -/
def onBody (c : Nat) (data : Bytes) : Prog PUnit := do
  let s ← get
  let h := s.conns c
  if h.oversize then pure ⟨⟩
  else if h.responseStarted ∧ h.current.isSome ∧ s.sel.tracked c then pure ⟨⟩
  else if h.bodyBuf.length + data.length > cfg.maxBodySize then
    setConn c fun h => { h with bodyTooLarge := true }
  else setConn c fun h => { h with bodyBuf := h.bodyBuf ++ data }

/-- `on_message_complete`. -/
def onMessageComplete (c : Nat) : Prog PUnit :=
  setConn c fun h => { h with bodyEom := true, messageComplete := true }

/-- The callbacks of one call of `feed_data`. -/
def callbacks (serve : HandlerRun → Nat → Prog PUnit) (c : Nat) : List Callback → Prog PUnit
  | [] => pure ⟨⟩
  | .headersComplete method headers keepAlive handler :: rest => do
    onHeadersComplete cfg serve c method headers keepAlive handler
    callbacks serve c rest
  | .body b :: rest => do
    onBody cfg c b
    callbacks serve c rest
  | .messageComplete :: rest => do
    onMessageComplete c
    callbacks serve c rest

/-- `parser.feed_data`. What a callback raises ends the call, as an error of the parser. -/
def feedData (serve : HandlerRun → Nat → Prog PUnit) (c : Nat) : Prog PUnit := do
  match ← ask with
  | .fed cbs fails =>
    match ← attempt (callbacks cfg serve c cbs) with
    | .ok _ => if fails then throw .protocolError else pure ⟨⟩
    | .error _ => throw .protocolError
  | _ => throw .other

/-- `dispatch()` of a request that waited for the end of `feed_data`. -/
def dispatchDeferred (serve : HandlerRun → Nat → Prog PUnit) (c : Nat) : Prog PUnit := do
  match ((← get).conns c).deferred with
  | some k =>
    setConn c fun h => { h with deferred := none }
    stopTracking c
    startSoon serve k
  | none => pure ⟨⟩

/-- `_feed`. -/
def feed (serve : HandlerRun → Nat → Prog PUnit) (c : Nat) : Prog PUnit := do
  match ← attempt (feedData cfg serve c) with
  | .error e =>
    onlyIf (e = .protocolError) (setConn c fun h => { h with deferred := none })
    throw e
  | .ok _ =>
    if ((← get).conns c).bodyTooLarge then
      setConn c fun h => { h with bodyTooLarge := false, deferred := none }
      throw .bodyTooLarge
    else dispatchDeferred serve c

/-! ## `_HTTPReqCtx` -/

/-- The pending head goes out with the bytes behind it; without one, the bytes alone, if there are
any. -/
def flush (k : Nat) (payload : Bytes) : Prog PUnit := do
  let x ← getCtx k
  match x.pendingHeaderBytes with
  | some head =>
    sendAll cfg x.conn (head ++ payload)
    setCtx k fun x => { x with pendingHeaderBytes := none }
  | none => onlyIf (payload ≠ []) (sendAll cfg x.conn payload)

/-- `start_response` with a `Response`. -/
def startResponse (k : Nat) (r : Writer.Response) : Prog PUnit := do
  let x ← getCtx k
  let scan := Writer.scanResponseHeaders r.headers
  let bodyAllowed := Writer.responseAllowsBody x.method r.statusCode
  setConn x.conn fun h => { h with
    responseStarted := true
    closeAfterResponse := h.closeAfterResponse || (scan.hasClose || !x.keepAlive) }
  let framed :=
    if bodyAllowed && !scan.hasFraming then
      { r with headers := r.headers ++ [(Writer.transferEncodingName, Writer.chunkedValue)] }
    else r
  setCtx k fun x => { x with
    responseStatus := some r.statusCode
    bodyAllowed := bodyAllowed
    chunked := x.chunked || (bodyAllowed && (!scan.hasFraming || scan.hasChunked))
    pendingHeaderBytes := some (cfg.serialize framed) }

/-- `start_response` with an `InformationalResponse`. -/
def informational (k : Nat) (r : Writer.Response) : Prog PUnit := do
  sendAll cfg (← getCtx k).conn (cfg.serialize r)

/-- `send`. -/
def send (k : Nat) (chunk : Bytes) : Prog PUnit := do
  let x ← getCtx k
  if !x.bodyAllowed then flush cfg k []
  else if chunk = [] ∧ x.pendingHeaderBytes = none then pure ⟨⟩
  else flush cfg k (if x.chunked ∧ chunk ≠ [] then ChunkedCoding.frame chunk else chunk)

/-- `finish_response`. -/
def finishResponse (k : Nat) (here : Bool) : Prog PUnit := do
  let x ← getCtx k
  flush cfg k (if x.chunked then ChunkedCoding.lastChunk else [])
  maybeGiveBack k here

/-- `sendfile`. -/
def sendfile (k : Nat) (r : Writer.Response) (count : Nat) (here : Bool) : Prog PUnit := do
  if Writer.declaredLength r.headers none ≠ some (some (count : Int)) then throw .valueError
  else
    startResponse cfg k r
    flush cfg k []
    sockSendfile cfg (← getCtx k).conn
    finishResponse cfg k here

/-- `_send_continue`. -/
def sendContinue (k : Nat) : Prog PUnit := do
  -- "HTTP/1.1 100 Continue"
  sendAll cfg (← getCtx k).conn
    [72, 84, 84, 80, 47, 49, 46, 49, 32, 49, 48, 48, 32, 67, 111, 110, 116, 105, 110, 117, 101, 13,
      10, 13, 10]
  setCtx k fun x => { x with continueSent := true }

/-- `conn.sock.recv`, and again in blocking mode when there is nothing to read. -/
def recvSwitching (c : Nat) : Prog Bytes := do
  match ← attempt (sockRecv c) with
  | .ok data => pure data
  | .error .blockingIOError => switched cfg c (sockRecv c)
  | .error e => throw e

/-- The loop of `receive`. Every round takes an answer. -/
def receiveLoop (serve : HandlerRun → Nat → Prog PUnit) (c : Nat) : Nat → Prog PUnit
  | 0 => throw .other
  | n + 1 => do
    let h := (← get).conns c
    if h.bodyBuf ≠ [] ∨ h.bodyEom then pure ⟨⟩
    else
      let data ← recvSwitching cfg c
      if data = [] then pure ⟨⟩
      else
        feed cfg serve c
        receiveLoop serve c n

/-- `receive`. -/
def receive (serve : HandlerRun → Nat → Prog PUnit) (k size : Nat) : Prog Bytes := do
  let x ← getCtx k
  onlyIf (x.expect100Continue ∧ !x.continueSent) (sendContinue cfg k)
  receiveLoop cfg serve x.conn ((← get).answers.length + 1)
  let buf := ((← get).conns x.conn).bodyBuf
  setConn x.conn fun h => { h with bodyBuf := h.bodyBuf.drop size }
  pure (buf.take size)

/-! ## `_loop` -/

/-- `_reset_for_next_request`. -/
def resetForNextRequest (c : Nat) : Prog PUnit :=
  setConn c fun h => { h with
    current := none
    bodyBuf := []
    bodyEom := false
    messageComplete := false
    responseStarted := false
    closeAfterResponse := false
    deferred := none
    idle := true }

/-- `_loop`. A round resets or reads, and what is reset reads in the next round. -/
def loop (serve : HandlerRun → Nat → Prog PUnit) (c : Nat) : Nat → Prog PUnit
  | 0 => throw .other
  | n + 1 => do
    let s ← get
    let h := s.conns c
    if !s.sel.tracked c then pure ⟨⟩
    else if h.messageComplete then
      match h.current with
      | none => throw .assertion
      | some k =>
        if h.closeAfterResponse ∨ !(s.ctxs k).keepAlive then closeConn c true
        else
          resetForNextRequest c
          loop serve c n
    else
      match ← attempt (sockRecv c) with
      | .error .blockingIOError => pure ⟨⟩
      | .error e => throw e
      | .ok data =>
        if data = [] then closeConn c true
        else
          setConn c fun h => { h with idle := false }
          feed cfg serve c
          loop serve c n

/-- `_try_send_wire`. -/
def trySendWire (c : Nat) (wire : Bytes) : Prog PUnit := do
  if ((← get).conns c).responseStarted then pure ⟨⟩ else quietly (sendAll cfg c wire)

/-- `__call__`. -/
def callback (serve : HandlerRun → Nat → Prog PUnit) (c : Nat) : Prog PUnit := do
  match ← attempt (loop cfg serve c (2 * (← get).answers.length + 2)) with
  | .ok _ => pure ⟨⟩
  | .error e =>
    if e = .protocolError then
      trySendWire cfg c cfg.badRequestWire
      closeConn c true
    else if e = .bodyTooLarge then
      trySendWire cfg c cfg.payloadTooLargeWire
      closeConn c true
    else throw e

/-- `emit_stale_408`. -/
def emitStale408 (c : Nat) : Prog PUnit := do
  let h := (← get).conns c
  if h.idle ∨ h.responseStarted then pure ⟨⟩ else quietly (sendAll cfg c cfg.requestTimeoutWire)

/-! ## What the backend keeps -/

section

variable {cfg : Config} {n c : Nat} {serve : HandlerRun → Nat → Prog PUnit}

theorem keeps_onHeadersComplete (hserve : ∀ h k, Keeps (Inv n) (serve h k)) (hlt : c < n)
    (method : Bytes) (headers : List (Bytes × Bytes)) (keepAlive : Bool) (handler : HandlerRun) :
    Keeps (Inv n) (onHeadersComplete cfg serve c method headers keepAlive handler) := by
  apply Keeps.ite (keeps_setConn _ _)
  apply Triple.get_bind
  intro s hs
  refine Triple.bind (Q := fun _ => Inv n) (Triple.modify ?_) fun _ => ?_
  · rintro t rfl
    exact hs.newCtx hlt _ rfl
  · apply Keeps.bind (keeps_setConn _ _)
    intro _
    apply Keeps.bind (hserve handler s.next)
    intro _
    exact Keeps.get_bind fun _ => Keeps.onlyIf (keeps_setConn _ _)

theorem keeps_onBody (data : Bytes) : Keeps (Inv n) (onBody cfg c data) := by
  apply Keeps.get_bind
  intro s
  apply Keeps.ite (Keeps.pure _)
  apply Keeps.ite (Keeps.pure _)
  exact Keeps.ite (keeps_setConn _ _) (keeps_setConn _ _)

theorem keeps_callbacks (hserve : ∀ h k, Keeps (Inv n) (serve h k)) (hlt : c < n)
    (cbs : List Callback) : Keeps (Inv n) (callbacks cfg serve c cbs) := by
  induction cbs with
  | nil => exact Keeps.pure _
  | cons callback rest ih =>
    cases callback with
    | headersComplete method headers keepAlive handler =>
      exact Keeps.bind
        (keeps_onHeadersComplete hserve hlt method headers keepAlive handler) fun _ => ih
    | body b => exact Keeps.bind (keeps_onBody b) fun _ => ih
    | messageComplete => exact Keeps.bind (keeps_setConn _ _) fun _ => ih

theorem keeps_feedData (hserve : ∀ h k, Keeps (Inv n) (serve h k)) (hlt : c < n) :
    Keeps (Inv n) (feedData cfg serve c) := by
  apply Keeps.bind keeps_ask
  intro a
  cases a with
  | fed cbs fails =>
    apply Keeps.bind (keeps_callbacks hserve hlt cbs).attempt
    intro result
    cases result with
    | ok _ => exact Keeps.ite (Keeps.throw _) (Keeps.pure _)
    | error e => exact Keeps.throw _
  | _ => exact Keeps.throw _

theorem keeps_dispatchDeferred (hserve : ∀ h k, Keeps (Inv n) (serve h k)) :
    Keeps (Inv n) (dispatchDeferred serve c) := by
  apply Keeps.get_bind
  intro s
  cases (s.conns c).deferred with
  | none => exact Keeps.pure _
  | some k =>
    apply Keeps.bind (keeps_setConn _ _)
    intro _
    exact Keeps.bind (keeps_stopTracking c) fun _ => keeps_startSoon hserve k

/-- A feed keeps the invariant as far as the handlers that it serves do. -/
theorem keeps_feed (hserve : ∀ h k, Keeps (Inv n) (serve h k)) (hlt : c < n) :
    Keeps (Inv n) (feed cfg serve c) := by
  apply Keeps.bind (keeps_feedData hserve hlt).attempt
  intro result
  cases result with
  | error e => exact Keeps.bind (Keeps.onlyIf (keeps_setConn _ _)) fun _ => Keeps.throw _
  | ok _ =>
    apply Keeps.get_bind
    intro s
    apply Keeps.ite
    · exact Keeps.bind (keeps_setConn _ _) fun _ => Keeps.throw _
    · exact keeps_dispatchDeferred hserve

theorem keeps_flush (k : Nat) (payload : Bytes) : Keeps (Inv n) (flush cfg k payload) := by
  apply keeps_getCtx_bind
  intro x _
  cases x.pendingHeaderBytes with
  | none => exact Keeps.onlyIf (keeps_sendAll _)
  | some head => exact Keeps.bind (keeps_sendAll _) fun _ => keeps_setCtx _ _

theorem keeps_startResponse (k : Nat) (r : Writer.Response) :
    Keeps (Inv n) (startResponse cfg k r) :=
  keeps_getCtx_bind fun _ _ => Keeps.bind (keeps_setConn _ _) fun _ => keeps_setCtx _ _

theorem keeps_informational (k : Nat) (r : Writer.Response) :
    Keeps (Inv n) (informational cfg k r) :=
  keeps_getCtx_bind fun _ _ => keeps_sendAll _

theorem keeps_send (k : Nat) (chunk : Bytes) : Keeps (Inv n) (send cfg k chunk) := by
  apply keeps_getCtx_bind
  intro x _
  apply Keeps.ite (keeps_flush k _)
  exact Keeps.ite (Keeps.pure _) (keeps_flush k _)

theorem keeps_finishResponse (k : Nat) (here : Bool) : Keeps (Inv n) (finishResponse cfg k here) :=
  keeps_getCtx_bind fun _ _ => Keeps.bind (keeps_flush k _) fun _ => keeps_maybeGiveBack k here

theorem keeps_sendfile (k : Nat) (r : Writer.Response) (count : Nat) (here : Bool) :
    Keeps (Inv n) (sendfile cfg k r count here) := by
  apply Keeps.ite (Keeps.throw _)
  apply Keeps.bind (keeps_startResponse k r)
  intro _
  apply Keeps.bind (keeps_flush k _)
  intro _
  apply keeps_getCtx_bind
  intro x _
  exact Keeps.bind keeps_sockSendfile fun _ => keeps_finishResponse k here

theorem keeps_sendContinue (k : Nat) : Keeps (Inv n) (sendContinue cfg k) :=
  keeps_getCtx_bind fun _ _ => Keeps.bind (keeps_sendAll _) fun _ => keeps_setCtx _ _

theorem keeps_recvSwitching : Keeps (Inv n) (recvSwitching cfg c) := by
  apply Keeps.bind keeps_sockRecv.attempt
  intro result
  cases result with
  | ok data => exact Keeps.pure data
  | error e =>
    cases e with
    | blockingIOError => exact keeps_switched keeps_sockRecv
    | _ => exact Keeps.throw _

/-- When the callbacks run, the socket is in its mode again: a further request inside `receive`
finds the invariant. -/
theorem keeps_receiveLoop (hserve : ∀ h k, Keeps (Inv n) (serve h k)) (hlt : c < n) (m : Nat) :
    Keeps (Inv n) (receiveLoop cfg serve c m) := by
  induction m with
  | zero => exact Keeps.throw _
  | succ m ih =>
    apply Keeps.get_bind
    intro s
    apply Keeps.ite (Keeps.pure _)
    apply Keeps.bind keeps_recvSwitching
    intro data
    apply Keeps.ite (Keeps.pure _)
    exact Keeps.bind (keeps_feed hserve hlt) fun _ => ih

theorem keeps_receive (hserve : ∀ h k, Keeps (Inv n) (serve h k)) (k size : Nat) :
    Keeps (Inv n) (receive cfg serve k size) := by
  apply keeps_getCtx_bind
  intro x hlt
  apply Keeps.bind (Keeps.onlyIf (keeps_sendContinue k))
  intro _
  apply Keeps.get_bind
  intro s
  apply Keeps.bind (keeps_receiveLoop hserve hlt _)
  intro _
  exact Keeps.get_bind fun _ => Keeps.bind (keeps_setConn _ _) fun _ => Keeps.pure _

theorem keeps_loop (hserve : ∀ h k, Keeps (Inv n) (serve h k)) (hlt : c < n) (m : Nat) :
    Keeps (Inv n) (loop cfg serve c m) := by
  induction m with
  | zero => exact Keeps.throw _
  | succ m ih =>
    apply Keeps.get_bind
    intro s
    apply Keeps.ite (Keeps.pure _)
    apply Keeps.ite
    -- a complete message: the connection is closed or rolled over
    · cases (s.conns c).current with
      | none => exact Keeps.throw _
      | some k =>
        exact Keeps.ite (keeps_closeConn c true) (Keeps.bind (keeps_setConn _ _) fun _ => ih)
    -- else the socket is read, and the parser is fed
    · apply Keeps.bind keeps_sockRecv.attempt
      intro result
      cases result with
      | error e =>
        cases e with
        | blockingIOError => exact Keeps.pure _
        | _ => exact Keeps.throw _
      | ok data =>
        apply Keeps.ite (keeps_closeConn c true)
        apply Keeps.bind (keeps_setConn _ _)
        intro _
        exact Keeps.bind (keeps_feed hserve hlt) fun _ => ih

theorem keeps_trySendWire (wire : Bytes) : Keeps (Inv n) (trySendWire cfg c wire) :=
  Keeps.get_bind fun _ => Keeps.ite (Keeps.pure _) (keeps_quietly (keeps_sendAll wire))

theorem keeps_callback (hserve : ∀ h k, Keeps (Inv n) (serve h k)) (hlt : c < n) :
    Keeps (Inv n) (callback cfg serve c) := by
  apply Keeps.get_bind
  intro s
  apply Keeps.bind (keeps_loop hserve hlt _).attempt
  intro result
  cases result with
  | ok _ => exact Keeps.pure _
  | error e =>
    apply Keeps.ite
    · exact Keeps.bind (keeps_trySendWire _) fun _ => keeps_closeConn c true
    · apply Keeps.ite
      · exact Keeps.bind (keeps_trySendWire _) fun _ => keeps_closeConn c true
      · exact Keeps.throw _

theorem keeps_emitStale408 : Keeps (Inv n) (emitStale408 cfg c) :=
  Keeps.get_bind fun _ => Keeps.ite (Keeps.pure _) (keeps_quietly (keeps_sendAll _))

end

end LocalPost.Http.SocketMode.Httptools
