import LocalPost.Http.SocketMode.Switching

/-!
# The h11 backend

`HTTPConn` and `_HTTPReqCtx` of `server_h11.py`. The parser is outside: its events, its states and
the bytes it writes are answers. A request event comes with what its handler does; `serve` runs a
handler and recovers from what it raises. Every method keeps the invariant, whatever is raised at
whatever call.
-/

set_option autoImplicit false

namespace LocalPost.Http.SocketMode.H11

open LocalPost.Core LocalPost.Http.Base

variable (cfg : Config)

/-! ## The parser -/

/-- `parser.send`. -/
def parserSend : Prog (Option Bytes) := do
  match ← ask with
  | .payload p => pure p
  | _ => throw .other

/-- `parser.send_with_data_passthrough`, `parser.receive_data`, `parser.start_next_cycle`. -/
def parserCall : Prog PUnit := do
  match ← ask with
  | .returns => pure ⟨⟩
  | _ => throw .other

/-- `parser.next_event`. -/
def nextEvent : Prog Event := do
  match ← ask with
  | .event e => pure e
  | _ => throw .other

/-- `parser.our_state` and `parser.their_state is DONE`. -/
def states : Prog (OurState × Bool) := do
  match ← ask with
  | .states ours theirsDone => pure (ours, theirsDone)
  | _ => throw .other

/-- `parser.they_are_waiting_for_100_continue`. -/
def waiting : Prog Bool := do
  match ← ask with
  | .waiting b => pure b
  | _ => throw .other

/-! ## `HTTPConn` -/

/-- `HTTPConn.receive`. -/
def connReceive (c : Nat) : Prog PUnit := do
  let data ← sockRecv c
  parserCall
  onlyIf (data ≠ []) (setConn c fun h => { h with idle := false })

/-- `HTTPConn.send`. -/
def connSend (c : Nat) : Prog PUnit := do
  match ← parserSend with
  | none => pure ⟨⟩
  | some payload => sendAll cfg c payload

/-- The head, the body and the end of the message of a canned response. -/
def sendMessage (c : Nat) : Prog PUnit := do
  connSend cfg c
  connSend cfg c
  connSend cfg c

/-- `_try_send_status`. -/
def trySendStatus (c : Nat) : Prog PUnit := do
  let (ours, _) ← states
  if ours ≠ .idle ∧ ours ≠ .sendResponse then pure ⟨⟩
  else quietly (sendMessage cfg c)

/-- `emit_stale_408`. -/
def emitStale408 (c : Nat) : Prog PUnit := do
  if ((← get).conns c).idle then pure ⟨⟩
  else
    let (ours, _) ← states
    if ours ≠ .idle then pure ⟨⟩ else quietly (sendMessage cfg c)

/-! ## `_HTTPReqCtx` -/

/-- `start_response` with a `Response`. -/
def startResponse (k : Nat) (r : Writer.Response) : Prog PUnit := do
  setCtx k fun x => { x with responseStatus := some r.statusCode }
  let payload ← parserSend
  setCtx k fun x => { x with pendingHeaderBytes := some (payload.getD []) }

/-- `start_response` with an `InformationalResponse`. -/
def informational (k : Nat) : Prog PUnit := do
  connSend cfg (← getCtx k).conn

/-- The pending head goes out with the bytes behind it; without one, the bytes alone, if there are
any. -/
def flush (k : Nat) (payload : Bytes) : Prog PUnit := do
  let x ← getCtx k
  match x.pendingHeaderBytes with
  | some head =>
    setCtx k fun x => { x with pendingHeaderBytes := none }
    sendAll cfg x.conn (head ++ payload)
  | none => onlyIf (payload ≠ []) (sendAll cfg x.conn payload)

/-- `send`. -/
def send (k : Nat) : Prog PUnit := do
  match ← parserSend with
  | none => pure ⟨⟩
  | some payload => flush cfg k payload

/-- The loop that takes the rest of the request: `true` when the end of the message was reached,
`false` when the parser asks for more. -/
def drain : Nat → Prog Bool
  | 0 => throw .other
  | n + 1 => do
    let (_, theirsDone) ← states
    if theirsDone then pure true
    else
      match ← nextEvent with
      | .needData => pure false
      | .paused => pure false
      | .connectionClosed => pure false
      | _ => drain n

/-- `finish_response`. -/
def finishResponse (k : Nat) (here : Bool) : Prog PUnit := do
  let eom ← parserSend
  flush cfg k (eom.getD [])
  if ← drain ((← get).answers.length + 1) then maybeGiveBack k here
  else closeConn (← getCtx k).conn here

/-- The pending head goes out alone. -/
def sendHead (k : Nat) : Prog PUnit := do
  let x ← getCtx k
  match x.pendingHeaderBytes with
  | some head =>
    sendAll cfg x.conn head
    setCtx k fun x => { x with pendingHeaderBytes := none }
  | none => pure ⟨⟩

/-- `sendfile`. -/
def sendfile (k : Nat) (r : Writer.Response) (count : Nat) (here : Bool) : Prog PUnit := do
  if contentLength r.headers ≠ some (count : Int) then throw .valueError
  else
    startResponse k r
    parserCall
    let x ← getCtx k
    sendHead cfg k
    sockSendfile cfg x.conn
    finishResponse cfg k here

/-- `self.conn.receive(size)`, and again in blocking mode when there is nothing to read. -/
def receiveSwitching (c : Nat) : Prog PUnit := do
  match ← attempt (connReceive c) with
  | .ok _ => pure ⟨⟩
  | .error .blockingIOError => switched cfg c (connReceive c)
  | .error e => throw e

/-- The loop of `receive`. Every round takes an answer. -/
def receiveLoop (c : Nat) : Nat → Prog Bytes
  | 0 => throw .other
  | n + 1 => do
    match ← nextEvent with
    | .needData =>
      receiveSwitching cfg c
      receiveLoop c n
    | .data b =>
      setConn c fun h => { h with bodyBytesReceived := h.bodyBytesReceived + b.length }
      if ((← get).conns c).bodyBytesReceived > cfg.maxBodySize then throw .bodyTooLarge
      else pure b
    | .endOfMessage => pure []
    | _ => throw .runtimeError

/-- `receive`. -/
def receive (k : Nat) : Prog Bytes := do
  let x ← getCtx k
  let (_, theirsDone) ← states
  if theirsDone then pure []
  else
    onlyIf (← waiting) (connSend cfg x.conn)
    receiveLoop cfg x.conn ((← get).answers.length + 1)

/-! ## `_loop` -/

/-- The context of a request, and its handler. -/
def dispatch (serve : HandlerRun → Nat → Prog PUnit) (c : Nat) (method : Bytes)
    (handler : HandlerRun) : Prog PUnit := do
  let k := (← get).next
  modify fun s =>
    { s with ctxs := Function.update s.ctxs k (Ctx.fresh c method false false), next := k + 1 }
  serve handler k

/-- The next cycle of the parser, and of the connection. -/
def startNextCycle (c : Nat) : Prog PUnit := do
  parserCall
  setConn c fun h => { h with bodyBytesReceived := 0, idle := true }

/-- `_loop`. -/
def loop (serve : HandlerRun → Nat → Prog PUnit) (c : Nat) : Nat → Prog PUnit
  | 0 => throw .other
  | n + 1 => do
    if !(← get).sel.tracked c then pure ⟨⟩
    else
      let (ours, theirsDone) ← states
      if ours = .mustClose then closeConn c true
      else
        onlyIf (ours = .done ∧ theirsDone) (startNextCycle c)
        match ← nextEvent with
        | .needData =>
          match ← attempt (connReceive c) with
          | .ok _ => loop serve c n
          | .error .blockingIOError => pure ⟨⟩
          | .error e => throw e
        | .request method headers handler =>
          if (contentLength headers).any fun cl =>
            (cfg.maxBodySize : Int) < cl then throw .bodyTooLarge
          else
            dispatch serve c method.upper handler
            if !(← get).sel.tracked c then pure ⟨⟩
            else
              let (_, theirsDone) ← states
              if theirsDone then loop serve c n else closeConn c true
        | .connectionClosed => closeConn c true
        | _ => throw .runtimeError

/-- `__call__`; a `LocalProtocolError` is treated as a `RemoteProtocolError` is. -/
def callback (serve : HandlerRun → Nat → Prog PUnit) (c : Nat) : Prog PUnit := do
  match ← attempt (loop cfg serve c ((← get).answers.length + 1)) with
  | .ok _ => pure ⟨⟩
  | .error e =>
    if e = .protocolError ∨ e = .bodyTooLarge then
      trySendStatus cfg c
      closeConn c true
    else throw e

/-! ## What the backend keeps -/

section

variable {cfg : Config} {n c : Nat} {P : Nat → Prop}

theorem keeps_parserSend : Keeps (InvFor P n) parserSend := by
  apply Keeps.bind keeps_ask
  intro a
  cases a with
  | payload p => exact Keeps.pure p
  | _ => exact Keeps.throw _

theorem keeps_parserCall : Keeps (InvFor P n) parserCall := by
  apply Keeps.bind keeps_ask
  intro a
  cases a with
  | returns => exact Keeps.pure _
  | _ => exact Keeps.throw _

theorem keeps_nextEvent : Keeps (InvFor P n) nextEvent := by
  apply Keeps.bind keeps_ask
  intro a
  cases a with
  | event e => exact Keeps.pure e
  | _ => exact Keeps.throw _

theorem keeps_states : Keeps (InvFor P n) states := by
  apply Keeps.bind keeps_ask
  intro a
  cases a with
  | states ours theirsDone => exact Keeps.pure _
  | _ => exact Keeps.throw _

theorem keeps_waiting : Keeps (InvFor P n) waiting := by
  apply Keeps.bind keeps_ask
  intro a
  cases a with
  | waiting b => exact Keeps.pure b
  | _ => exact Keeps.throw _

/-- `HTTPConn.receive` does not look at the mode: it may run in either. -/
theorem keeps_connReceive : Keeps (InvFor P n) (connReceive c) :=
  Keeps.bind keeps_sockRecv fun _ => Keeps.bind keeps_parserCall fun _ =>
    Keeps.onlyIf (keeps_setConn _ _)

theorem keeps_connSend : Keeps (Inv n) (connSend cfg c) := by
  apply Keeps.bind keeps_parserSend
  intro payload
  cases payload with
  | none => exact Keeps.pure _
  | some payload => exact keeps_sendAll payload

theorem keeps_sendMessage : Keeps (Inv n) (sendMessage cfg c) :=
  Keeps.bind keeps_connSend fun _ => Keeps.bind keeps_connSend fun _ => keeps_connSend

theorem keeps_trySendStatus : Keeps (Inv n) (trySendStatus cfg c) :=
  Keeps.bind keeps_states fun _ => Keeps.ite (Keeps.pure _) (keeps_quietly keeps_sendMessage)

theorem keeps_emitStale408 : Keeps (Inv n) (emitStale408 cfg c) := by
  apply Keeps.get_bind
  intro s
  apply Keeps.ite (Keeps.pure _)
  exact Keeps.bind keeps_states fun _ => Keeps.ite (Keeps.pure _) (keeps_quietly keeps_sendMessage)

theorem keeps_startResponse (k : Nat) (r : Writer.Response) : Keeps (Inv n) (startResponse k r) :=
  Keeps.bind (keeps_setCtx _ _) fun _ => Keeps.bind keeps_parserSend fun _ => keeps_setCtx _ _

theorem keeps_informational (k : Nat) : Keeps (Inv n) (informational cfg k) :=
  keeps_getCtx_bind fun _ _ => keeps_connSend

theorem keeps_flush (k : Nat) (payload : Bytes) : Keeps (Inv n) (flush cfg k payload) := by
  apply keeps_getCtx_bind
  intro x _
  cases x.pendingHeaderBytes with
  | none => exact Keeps.onlyIf (keeps_sendAll _)
  | some head => exact Keeps.bind (keeps_setCtx _ _) fun _ => keeps_sendAll _

theorem keeps_send (k : Nat) : Keeps (Inv n) (send cfg k) := by
  apply Keeps.bind keeps_parserSend
  intro payload
  cases payload with
  | none => exact Keeps.pure _
  | some payload => exact keeps_flush k payload

theorem keeps_drain (m : Nat) : Keeps (Inv n) (drain m) := by
  induction m with
  | zero => exact Keeps.throw _
  | succ m ih =>
    apply Keeps.bind keeps_states
    intro result
    apply Keeps.ite (Keeps.pure _)
    apply Keeps.bind keeps_nextEvent
    intro event
    cases event with
    | needData => exact Keeps.pure _
    | paused => exact Keeps.pure _
    | connectionClosed => exact Keeps.pure _
    | _ => exact ih

theorem keeps_finishResponse (k : Nat) (here : Bool) :
    Keeps (Inv n) (finishResponse cfg k here) := by
  apply Keeps.bind keeps_parserSend
  intro eom
  apply Keeps.bind (keeps_flush k _)
  intro _
  apply Keeps.get_bind
  intro s
  apply Keeps.bind (keeps_drain _)
  intro drained
  exact Keeps.ite (keeps_maybeGiveBack k here)
    (keeps_getCtx_bind fun x _ => keeps_closeConn x.conn here)

theorem keeps_sendHead (k : Nat) : Keeps (Inv n) (sendHead cfg k) := by
  apply keeps_getCtx_bind
  intro x _
  cases x.pendingHeaderBytes with
  | none => exact Keeps.pure _
  | some head => exact Keeps.bind (keeps_sendAll head) fun _ => keeps_setCtx _ _

theorem keeps_sendfile (k : Nat) (r : Writer.Response) (count : Nat) (here : Bool) :
    Keeps (Inv n) (sendfile cfg k r count here) := by
  apply Keeps.ite (Keeps.throw _)
  apply Keeps.bind (keeps_startResponse k r)
  intro _
  apply Keeps.bind keeps_parserCall
  intro _
  apply keeps_getCtx_bind
  intro x _
  apply Keeps.bind (keeps_sendHead k)
  intro _
  exact Keeps.bind keeps_sockSendfile fun _ => keeps_finishResponse k here

theorem keeps_receiveSwitching : Keeps (Inv n) (receiveSwitching cfg c) := by
  apply Keeps.bind keeps_connReceive.attempt
  intro result
  cases result with
  | ok _ => exact Keeps.pure _
  | error e =>
    cases e with
    | blockingIOError => exact keeps_switched keeps_connReceive
    | _ => exact Keeps.throw _

theorem keeps_receiveLoop (m : Nat) : Keeps (Inv n) (receiveLoop cfg c m) := by
  induction m with
  | zero => exact Keeps.throw _
  | succ m ih =>
    apply Keeps.bind keeps_nextEvent
    intro event
    cases event with
    | needData => exact Keeps.bind keeps_receiveSwitching fun _ => ih
    | data b =>
      apply Keeps.bind (keeps_setConn _ _)
      intro _
      exact Keeps.get_bind fun _ => Keeps.ite (Keeps.throw _) (Keeps.pure _)
    | endOfMessage => exact Keeps.pure _
    | _ => exact Keeps.throw _

theorem keeps_receive (k : Nat) : Keeps (Inv n) (receive cfg k) := by
  apply keeps_getCtx_bind
  intro x _
  apply Keeps.bind keeps_states
  intro result
  apply Keeps.ite (Keeps.pure _)
  apply Keeps.bind keeps_waiting
  intro expected
  apply Keeps.bind (Keeps.onlyIf keeps_connSend)
  intro _
  exact Keeps.get_bind fun _ => keeps_receiveLoop _

variable {serve : HandlerRun → Nat → Prog PUnit}

theorem keeps_dispatch (hserve : ∀ h k, Keeps (Inv n) (serve h k)) (hlt : c < n) (method : Bytes)
    (handler : HandlerRun) : Keeps (Inv n) (dispatch serve c method handler) := by
  apply Triple.get_bind
  intro s hs
  refine Triple.bind (Q := fun _ => Inv n) (Triple.modify ?_) fun _ => hserve handler s.next
  rintro t rfl
  exact hs.newCtx hlt _ rfl

theorem keeps_startNextCycle : Keeps (Inv n) (startNextCycle c) :=
  Keeps.bind keeps_parserCall fun _ => keeps_setConn _ _

/-- The loop keeps the invariant as far as the handlers that it serves do. -/
theorem keeps_loop (hserve : ∀ h k, Keeps (Inv n) (serve h k)) (hlt : c < n) (m : Nat) :
    Keeps (Inv n) (loop cfg serve c m) := by
  induction m with
  -- out of fuel
  | zero => exact Keeps.throw _
  | succ m ih =>
    apply Keeps.get_bind
    intro s
    apply Keeps.ite (Keeps.pure _)
    apply Keeps.bind keeps_states
    -- the head of `_loop`: the states of the parser, then the next event
    rintro ⟨ours, theirsDone⟩
    apply Keeps.ite (keeps_closeConn c true)
    apply Keeps.bind (Keeps.onlyIf keeps_startNextCycle)
    intro _
    apply Keeps.bind keeps_nextEvent
    intro event
    cases event with
    -- nothing to read: only a `BlockingIOError` leaves the loop quietly
    | needData =>
      apply Keeps.bind keeps_connReceive.attempt
      intro result
      cases result with
      | ok _ => exact ih
      | error e =>
        cases e with
        | blockingIOError => exact Keeps.pure _
        | _ => exact Keeps.throw _
    -- the dispatch, with the loop going on behind it when the connection is still tracked
    | request method headers handler =>
      apply Keeps.ite (Keeps.throw _)
      apply Keeps.bind (keeps_dispatch hserve hlt _ _)
      intro _
      apply Keeps.get_bind
      intro t
      apply Keeps.ite (Keeps.pure _)
      exact Keeps.bind keeps_states fun _ => Keeps.ite ih (keeps_closeConn c true)
    | connectionClosed => exact keeps_closeConn c true
    | _ => exact Keeps.throw _

theorem keeps_callback (hserve : ∀ h k, Keeps (Inv n) (serve h k)) (hlt : c < n) :
    Keeps (Inv n) (callback cfg serve c) := by
  apply Keeps.get_bind
  intro s
  apply Keeps.bind (keeps_loop hserve hlt _).attempt
  intro result
  cases result with
  | ok _ => exact Keeps.pure _
  | error e =>
    apply Keeps.ite
    · exact Keeps.bind keeps_trySendStatus fun _ => keeps_closeConn c true
    · exact Keeps.throw _

end

end LocalPost.Http.SocketMode.H11
