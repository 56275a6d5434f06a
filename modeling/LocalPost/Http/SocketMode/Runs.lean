import LocalPost.Http.SocketMode.H11
import LocalPost.Http.SocketMode.Httptools

/-!
# Runs of the server

A step is a whole call: a method of a context on any thread, the callback of a connection on the
selector thread, a round of `_drain_ops`, the sweep, an accept, a step of the shutdown. Each comes
with the answers of the code outside, so that any call on a socket may raise anything. Between two
steps no call is in progress.

A worker may give a connection back while `_loop` is still behind the handler: `_loop` dispatches
the next request, and the `_OpTrack` of the first one registers the connection under the worker of
the second, which may have its socket in blocking mode (`blocking_behind_lateTrack`). In the runs in
which no track is applied too late the socket of a registered connection never blocks
(`nonblocking_when_registered`). That holds on both backends, and asks nothing of the other steps.
-/

set_option autoImplicit false

namespace LocalPost.Http.SocketMode

open LocalPost.Core LocalPost.Http.Base

/-- What the two backends define differently. `serve` runs a handler. -/
structure Backend where
  startResponse : Nat → Writer.Response → Prog PUnit
  informational : Nat → Writer.Response → Prog PUnit
  send : Nat → Bytes → Prog PUnit
  finishResponse : Nat → Bool → Prog PUnit
  sendfile : Nat → Writer.Response → Nat → Bool → Prog PUnit
  receive : (HandlerRun → Nat → Prog PUnit) → Nat → Nat → Prog Bytes
  dispatch : (HandlerRun → Nat → Prog PUnit) → Nat → Prog PUnit
  callback : (HandlerRun → Nat → Prog PUnit) → Nat → Prog PUnit
  emitStale408 : Nat → Prog PUnit

/-- `dispatcher` of the pool: the worker is the owner from here on. -/
def dispatcher (serve : HandlerRun → Nat → Prog PUnit) (k : Nat) : Prog PUnit := do
  let x ← getCtx k
  stopTracking x.conn
  startSoon serve k

/-- The h11 backend. -/
def h11 (cfg : Config) : Backend where
  startResponse := H11.startResponse
  informational k _ := H11.informational cfg k
  send k _ := H11.send cfg k
  finishResponse := H11.finishResponse cfg
  sendfile := H11.sendfile cfg
  receive _ k _ := H11.receive cfg k
  dispatch := dispatcher
  callback := H11.callback cfg
  emitStale408 := H11.emitStale408 cfg

/-- The httptools backend; the pool's dispatch waits for the end of `feed_data`. -/
def httptools (cfg : Config) : Backend where
  startResponse := Httptools.startResponse cfg
  informational := Httptools.informational cfg
  send := Httptools.send cfg
  finishResponse := Httptools.finishResponse cfg
  sendfile := Httptools.sendfile cfg
  receive := Httptools.receive cfg
  dispatch _ k := do
    let x ← getCtx k
    setConn x.conn fun h => { h with deferred := some k }
  callback := Httptools.callback cfg
  emitStale408 := Httptools.emitStale408 cfg

namespace Backend

variable (B : Backend)

/-! ## Methods of a context -/

/-- The body of `complete`, when there is one. -/
def sendBody (k : Nat) : Option Bytes → Prog PUnit
  | none => pure ⟨⟩
  | some body => B.send k body

/-- `complete`. -/
def complete (k : Nat) (r : Writer.Response) (body : Option Bytes) (here : Bool) : Prog PUnit := do
  B.startResponse k r
  B.sendBody k body
  B.finishResponse k here

/-- The loop of `_native_stream`. -/
def sendChunks (k : Nat) : List Bytes → Prog PUnit
  | [] => pure ⟨⟩
  | chunk :: chunks => do
    B.send k chunk
    sendChunks k chunks

/-- What follows the loop of `_native_stream`. -/
def endStream (k : Nat) (here : Bool) : Writer.Ending → Prog PUnit
  | .finished => B.finishResponse k here
  | .raises => throw .other
  | .cancelled => pure ⟨⟩

/-- `_native_stream`. -/
def stream (k : Nat) (r : Writer.Response) (chunks : List Bytes) (ending : Writer.Ending)
    (here : Bool) : Prog PUnit := do
  B.startResponse k r
  B.sendChunks k chunks
  B.endStream k here ending

/-- The beginning of `borrow()`. -/
def borrow (k : Nat) : Prog PUnit := do
  let x ← getCtx k
  if (← get).sel.tracked x.conn then stopTracking x.conn else throw .assertion

/-- `emit_handler_error`. -/
def emitHandlerError (k : Nat) (here : Bool) : Prog PUnit := do
  let x ← getCtx k
  if x.responseStatus = none then
    match ← attempt
      (B.complete k Writer.internalErrorResponse (some Writer.internalErrorBody) here) with
    | .ok _ => pure ⟨⟩
    | .error e => if e.isException then closeConn x.conn here else throw e
  else closeConn x.conn here

/-- The calls of a handler that goes on when one raises. -/
def runCalls (run : Call → Prog PUnit) : List Call → Prog PUnit
  | [] => pure ⟨⟩
  | call :: calls => do
    let _ ← attempt (run call)
    runCalls run calls

/-- A handler, with the recovery from what it raises. -/
def serve (run : Call → Prog PUnit) (here : Bool) (handler : HandlerRun)
    (k : Nat) : Prog PUnit := do
  runCalls run handler.calls
  match handler.raises with
  | none => pure ⟨⟩
  | some e => if e = .bodyTooLarge ∨ !e.isException then throw e else B.emitHandlerError k here

/-- A call of a method. -/
def method (serve : HandlerRun → Nat → Prog PUnit) (call : Call) : Prog PUnit :=
  match call.method with
  | .startResponse r => B.startResponse call.ctx r
  | .informational r => B.informational call.ctx r
  | .send chunk => B.send call.ctx chunk
  | .finishResponse => B.finishResponse call.ctx call.here
  | .complete r body => B.complete call.ctx r body call.here
  | .stream r chunks ending => B.stream call.ctx r chunks ending call.here
  | .sendfile r count => B.sendfile call.ctx r count call.here
  | .receive size => do
    let _ ← B.receive serve call.ctx size
    pure ⟨⟩
  | .borrow => borrow call.ctx
  | .exit => maybeGiveBack call.ctx call.here
  | .dispatch => B.dispatch serve call.ctx
  | .close => do
    let x ← getCtx call.ctx
    closeConn x.conn call.here

/-- A call, and those of the handlers that `receive` dispatches. Every level takes an answer, so
their number is enough for the depth. -/
def perform : Nat → Call → Prog PUnit
  | 0, _ => throw .other
  | n + 1, call => B.method (B.serve (perform n) call.here) call

/-! ## The selector thread -/

/-- The first loop of `_cleanup_stale`. -/
def untrackAll : List Nat → Prog PUnit
  | [] => pure ⟨⟩
  | c :: cs => do
    stopTracking c
    untrackAll cs

/-- The second loop of `_cleanup_stale`. -/
def emitAll : List Nat → Prog PUnit
  | [] => pure ⟨⟩
  | c :: cs => do
    quietly (B.emitStale408 c)
    setSel fun sel => sel.sockClose c
    emitAll cs

/-- `_cleanup_stale`, where `late` are the connections whose deadline has passed. -/
def cleanupStale (late : List Nat) : Prog PUnit := do
  let s ← get
  let stale := late.filter fun c => (s.sel.map (s.sel.fd c)).any fun key => key.data = c
  untrackAll stale
  B.emitAll stale

end Backend

/-- One step. `accept` carries the number the kernel gives to the new socket and whether the
connection is posted to another selector thread, `callback` and `walk` the descriptor of a key,
`recover` is `emit_handler_error` of the pool. -/
inductive Act where
  | accept (fd : Nat) (posted : Bool)
  | call (call : Call) (answers : List Answer)
  | recover (k : Nat) (here : Bool) (answers : List Answer)
  | callback (f : Nat) (answers : List Answer)
  | drain
  | sweep (late : List Nat) (answers : List Answer)
  | beginShutdown
  | popOp
  | walk (f : Nat)
  deriving DecidableEq, Repr

namespace State

/-- An accepted connection; `setblocking(False)` comes before it is tracked. -/
def accepted (s : State) (sel : Selector) : State :=
  { s with
    sel := sel
    timeout := Function.update s.timeout s.sel.next 0
    conns := Function.update s.conns s.sel.next HTTPConn.fresh }

/-- One round of the loop over the queue in `shutdown`. -/
def popOp (s : State) : Option State :=
  match s.sel.ops with
  | [] => none
  | .track c :: rest =>
    some { s with sel := ({ s.sel with ops := rest }.sockClose c).setTracked c false }
  | .close _ :: rest => some { s with sel := { s.sel with ops := rest } }

/-- One round of the loop over the map in `shutdown`. -/
def walk (s : State) (key : Key) : State :=
  { s with sel := ((s.sel.unregisterSock key.data).sockClose key.data).setTracked key.data false }

/-- One step. -/
def step (B : Backend) (s : State) : Act → Option State
  | .accept fd posted =>
    (s.sel.step (.accept fd)).map fun sel =>
      final (if posted then postTrack s.sel.next else track s.sel.next true) (s.accepted sel)
  | .call call answers =>
    some (final (B.perform (answers.length + 1) call) { s with answers := answers })
  | .recover k here answers =>
    some (final (B.emitHandlerError k here) { s with answers := answers })
  | .callback f answers =>
    (s.sel.map f).map fun key =>
      final (B.callback (B.serve (B.perform (answers.length + 1)) true) key.data)
        { s with answers := answers }
  | .drain => s.sel.drain.map fun sel => { s with sel := sel }
  | .sweep late answers => some (final (B.cleanupStale late) { s with answers := answers })
  | .beginShutdown => some { s with shuttingDown := true }
  | .popOp => if s.shuttingDown then s.popOp else none
  | .walk f => if s.shuttingDown then (s.sel.map f).map s.walk else none

end State

/-- A server on a backend. -/
def system (B : Backend) : Lts State Act where
  init s := s = State.start
  step := State.step B

/-! ## What a step keeps -/

/-- Every method keeps the invariant. -/
structure Backend.Safe (B : Backend) (n : Nat) : Prop where
  startResponse : ∀ k r, Keeps (Inv n) (B.startResponse k r)
  informational : ∀ k r, Keeps (Inv n) (B.informational k r)
  send : ∀ k chunk, Keeps (Inv n) (B.send k chunk)
  finishResponse : ∀ k here, Keeps (Inv n) (B.finishResponse k here)
  sendfile : ∀ k r count here, Keeps (Inv n) (B.sendfile k r count here)
  receive : ∀ serve, (∀ h k, Keeps (Inv n) (serve h k)) → ∀ k size,
    Keeps (Inv n) (B.receive serve k size)
  dispatch : ∀ serve, (∀ h k, Keeps (Inv n) (serve h k)) → ∀ k, Keeps (Inv n) (B.dispatch serve k)
  callback : ∀ serve, (∀ h k, Keeps (Inv n) (serve h k)) → ∀ c < n,
    Keeps (Inv n) (B.callback serve c)
  emitStale408 : ∀ c, Keeps (Inv n) (B.emitStale408 c)

section

variable {cfg : Config} {B : Backend} {n : Nat}

/-- The methods of the h11 contexts keep the invariant. -/
theorem safe_h11 (cfg : Config) (n : Nat) : (h11 cfg).Safe n where
  startResponse := H11.keeps_startResponse
  informational k _ := H11.keeps_informational k
  send k _ := H11.keeps_send k
  finishResponse := H11.keeps_finishResponse
  sendfile := H11.keeps_sendfile
  receive _ _ k _ := H11.keeps_receive k
  dispatch _ hserve k := keeps_getCtx_bind fun x _ =>
    Keeps.bind (keeps_stopTracking x.conn) fun _ => keeps_startSoon hserve k
  callback _ hserve _ hlt := H11.keeps_callback hserve hlt
  emitStale408 _ := H11.keeps_emitStale408

/-- The methods of the httptools contexts keep the invariant. -/
theorem safe_httptools (cfg : Config) (n : Nat) : (httptools cfg).Safe n where
  startResponse := Httptools.keeps_startResponse
  informational := Httptools.keeps_informational
  send := Httptools.keeps_send
  finishResponse := Httptools.keeps_finishResponse
  sendfile := Httptools.keeps_sendfile
  receive _ hserve := Httptools.keeps_receive hserve
  dispatch _ _ _ := keeps_getCtx_bind fun _ _ => keeps_setConn _ _
  callback _ hserve _ hlt := Httptools.keeps_callback hserve hlt
  emitStale408 _ := Httptools.keeps_emitStale408

namespace Backend.Safe

variable (hB : B.Safe n)
include hB

theorem complete (k : Nat) (r : Writer.Response) (body : Option Bytes) (here : Bool) :
    Keeps (Inv n) (B.complete k r body here) := by
  apply Keeps.bind (hB.startResponse k r)
  intro _
  refine Keeps.bind ?_ fun _ => hB.finishResponse k here
  cases body with
  | none => exact Keeps.pure _
  | some body => exact hB.send k body

theorem sendChunks (k : Nat) (chunks : List Bytes) : Keeps (Inv n) (B.sendChunks k chunks) := by
  induction chunks with
  | nil => exact Keeps.pure _
  | cons chunk chunks ih => exact Keeps.bind (hB.send k chunk) fun _ => ih

theorem stream (k : Nat) (r : Writer.Response) (chunks : List Bytes) (ending : Writer.Ending)
    (here : Bool) : Keeps (Inv n) (B.stream k r chunks ending here) := by
  apply Keeps.bind (hB.startResponse k r)
  intro _
  apply Keeps.bind (hB.sendChunks k chunks)
  intro _
  cases ending with
  | finished => exact hB.finishResponse k here
  | raises => exact Keeps.throw _
  | cancelled => exact Keeps.pure _

theorem emitHandlerError (k : Nat) (here : Bool) : Keeps (Inv n) (B.emitHandlerError k here) := by
  apply keeps_getCtx_bind
  intro x _
  refine Keeps.ite ?_ (keeps_closeConn x.conn here)
  apply Keeps.bind (hB.complete k _ _ here).attempt
  intro result
  cases result with
  | ok _ => exact Keeps.pure _
  | error e => exact Keeps.ite (keeps_closeConn x.conn here) (Keeps.throw _)

theorem serve {run : Call → Prog PUnit} (hrun : ∀ call, Keeps (Inv n) (run call)) (here : Bool)
    (handler : HandlerRun) (k : Nat) : Keeps (Inv n) (B.serve run here handler k) := by
  have hcalls : ∀ calls, Keeps (Inv n) (Backend.runCalls run calls) := by
    intro calls
    induction calls with
    | nil => exact Keeps.pure _
    | cons call calls ih => exact Keeps.bind (hrun call).attempt fun _ => ih
  apply Keeps.bind (hcalls handler.calls)
  intro _
  cases handler.raises with
  | none => exact Keeps.pure _
  | some e => exact Keeps.ite (Keeps.throw _) (hB.emitHandlerError k here)

theorem method {serve : HandlerRun → Nat → Prog PUnit} (hserve : ∀ h k, Keeps (Inv n) (serve h k))
    (call : Call) : Keeps (Inv n) (B.method serve call) := by
  rw [Backend.method.eq_def]
  cases call.method with
  | startResponse r => exact hB.startResponse call.ctx r
  | informational r => exact hB.informational call.ctx r
  | send chunk => exact hB.send call.ctx chunk
  | finishResponse => exact hB.finishResponse call.ctx call.here
  | complete r body => exact hB.complete call.ctx r body call.here
  | stream r chunks ending => exact hB.stream call.ctx r chunks ending call.here
  | sendfile r count => exact hB.sendfile call.ctx r count call.here
  | receive size => exact Keeps.bind (hB.receive serve hserve call.ctx size) fun _ => Keeps.pure _
  | borrow =>
    apply keeps_getCtx_bind
    intro x _
    exact Keeps.get_bind fun _ => Keeps.ite (keeps_stopTracking x.conn) (Keeps.throw _)
  | exit => exact keeps_maybeGiveBack call.ctx call.here
  | dispatch => exact hB.dispatch serve hserve call.ctx
  | close => exact keeps_getCtx_bind fun x _ => keeps_closeConn x.conn call.here

theorem perform (m : Nat) (call : Call) : Keeps (Inv n) (B.perform m call) := by
  induction m generalizing call with
  | zero => exact Keeps.throw _
  | succ m ih => exact hB.method (hB.serve ih call.here) call

theorem cleanupStale (late : List Nat) : Keeps (Inv n) (B.cleanupStale late) := by
  have huntrack : ∀ cs, Keeps (Inv n) (Backend.untrackAll cs) := by
    intro cs
    induction cs with
    | nil => exact Keeps.pure _
    | cons c cs ih => exact Keeps.bind (keeps_stopTracking c) fun _ => ih
  have hemit : ∀ cs, Keeps (Inv n) (B.emitAll cs) := by
    intro cs
    induction cs with
    | nil => exact Keeps.pure _
    | cons c cs ih =>
      apply Keeps.bind (keeps_quietly (hB.emitStale408 c))
      intro _
      refine Keeps.bind (Keeps.modify fun s hs => ?_) fun _ => ih
      exact hs.quieter (Quieter.sockClose s.sel c) (hs.books.inv.sockClose c)
  exact Keeps.get_bind fun _ => Keeps.bind (huntrack _) fun _ => hemit _

end Backend.Safe

/-- The answers of a call do not matter to the invariant. -/
theorem InvFor.answered {P : Nat → Prop} {s : State} (hs : InvFor P n s) (answers : List Answer) :
    InvFor P n { s with answers := answers } := hs.of_same rfl rfl (fun _ => rfl) rfl

/-- The new connection is not marked, and its socket does not block. -/
theorem inv_accepted {s : State} (hs : Inv n s) {fd : Nat} {sel : Selector}
    (h : s.sel.step (.accept fd) = some sel) :
    Inv (n + 1) (s.accepted sel) ∧ (s.accepted sel).timeout s.sel.next = 0 := by
  refine ⟨?_, Function.update_self _ _ _⟩
  have hinv := Selector.step_inv hs.books.inv h
  obtain ⟨-, ⟨⟩⟩ := Option.ite_none_right_eq_some.1 h
  -- only the new connection has another record
  have hold : ∀ c, c ≠ s.sel.next → Function.update s.sel.conns s.sel.next ⟨fd, true, false⟩ c =
    s.sel.conns c :=
    fun c hc => Function.update_of_ne hc _ _
  refine ⟨⟨hinv, fun f key hkey => ?_, fun c hop => ?_, fun c hopen hlisted => ?_⟩, ?_,
    fun k hk => ?_, fun c _ hopen htracked => ?_⟩
  · obtain ⟨hlt, hfd⟩ := hs.books.data f key hkey
    refine ⟨Nat.lt_succ_of_lt hlt, ?_⟩
    simp only [State.accepted, Selector.fd]
    rw [hold _ (Nat.ne_of_lt hlt)]
    exact hfd
  · exact Nat.lt_succ_of_lt (hs.books.ops c hop)
  · -- Nothing is listed for the number of the new connection yet.
    have hlt : c < s.sel.next := by
      obtain ⟨f, key, hkey, hdata⟩ := hlisted
      exact hdata ▸ (hs.books.data f key hkey).1
    simp only [State.accepted, Selector.isOpen, Selector.tracked] at hopen ⊢
    rw [hold c (Nat.ne_of_lt hlt)] at hopen ⊢
    exact hs.books.listed c hopen hlisted
  · exact congrArg (· + 1) hs.accepted
  · exact Nat.lt_succ_of_lt (hs.ctxs k hk)
  -- its socket has been put into non-blocking mode
  · simp only [State.accepted, Selector.isOpen, Selector.tracked] at hopen htracked ⊢
    by_cases hc : c = s.sel.next
    · rw [hc, Function.update_self]
    · rw [hold c hc] at hopen htracked
      rw [Function.update_of_ne hc]
      exact hs.mode c trivial hopen htracked

/-- `shutdown` only closes connections. -/
theorem inv_popOp {s t : State} (hs : Inv n s) (h : s.popOp = some t) : Inv n t := by
  rw [State.popOp.eq_def] at h
  split at h
  · cases h
  · rename_i c rest hops
    cases h
    have hrest := hs.quieter (Quieter.popOp hops)
      (hs.books.inv.of_eq rfl (fun _ => rfl) (fun _ => rfl) rfl rfl)
    exact hrest.rejected c
  · rename_i fd rest hops
    cases h
    exact hs.quieter (Quieter.popOp hops)
      (hs.books.inv.of_eq rfl (fun _ => rfl) (fun _ => rfl) rfl rfl)

theorem inv_walk {s : State} (hs : Inv n s) (key : Key) : Inv n (s.walk key) := by
  have hquiet : Quieter s.sel (s.sel.unregisterSock key.data) := by
    rw [Selector.unregisterSock]
    split
    · exact Quieter.unregister _ _
    · exact Quieter.refl _
  exact (hs.quieter hquiet (hs.books.inv.unregisterSock key.data)).rejected key.data

/-- A round of `_drain_ops` marks no open connection. -/
theorem drain_tracked {sel sel' : Selector} (hi : sel.Inv) (h : sel.drain = some sel') :
    sel'.next = sel.next ∧
    ∀ c, sel'.isOpen c = true → sel.isOpen c = true ∧ sel'.tracked c = sel.tracked c := by
  rw [Selector.drain.eq_def] at h
  split at h
  · cases h
  · rename_i d rest hops
    cases h
    have hrest : Selector.Inv { sel with ops := rest } :=
      hi.of_eq rfl (fun _ => rfl) (fun _ => rfl) rfl rfl
    have hadds := applyTrack_adds hrest d
    exact ⟨hadds.next, fun c hc => ⟨hadds.isOpen c hc, hadds.tracked c hc⟩⟩
  · rename_i fd rest hops
    cases h
    have hquiet := (Quieter.popOp hops).trans (Quieter.unregister _ fd)
    exact ⟨hquiet.next, fun c hc => ⟨hquiet.isOpen c hc, hquiet.tracked c hc⟩⟩

theorem inv_drain {s : State} (hs : Inv n s) (htime : InTime s.sel) {sel : Selector}
    (h : s.sel.drain = some sel) : Inv n { s with sel := sel } := by
  obtain ⟨hnext, hsame⟩ := drain_tracked hs.books.inv h
  refine ⟨hs.books.drain htime h, hnext.trans hs.accepted, hs.ctxs, fun c _ hopen htracked => ?_⟩
  obtain ⟨hopen', htracked'⟩ := hsame c hopen
  exact hs.mode c trivial hopen' (htracked' ▸ htracked)

/-- The condition on a step: a track that the selector takes from its queue comes in time. -/
def Timely (s : State) : Act → Prop
  | .drain => InTime s.sel
  | _ => True

instance (s : State) : ∀ a, Decidable (Timely s a)
  | .drain => inferInstanceAs (Decidable (InTime _))
  | .accept _ _ => .isTrue trivial
  | .call _ _ => .isTrue trivial
  | .recover _ _ _ => .isTrue trivial
  | .callback _ _ => .isTrue trivial
  | .sweep _ _ => .isTrue trivial
  | .beginShutdown => .isTrue trivial
  | .popOp => .isTrue trivial
  | .walk _ => .isTrue trivial

/-- Every step that meets the condition keeps the invariant. -/
theorem step_inv (hB : ∀ n, B.Safe n) {s t : State} {a : Act} (hs : Inv n s) (htimely : Timely s a)
    (h : s.step B a = some t) : ∃ m, Inv m t := by
  cases a with
  | accept fd posted =>
    obtain ⟨sel, hsel, rfl⟩ := Option.map_eq_some_iff.1 h
    obtain ⟨hnew, hzero⟩ := inv_accepted hs hsel
    have hlt : s.sel.next < n + 1 := Nat.lt_succ_of_le hs.accepted.le
    refine ⟨n + 1, ?_⟩
    -- the acceptor runs on the selector's thread, or posts the new connection to another selector
    split
    · exact Triple.final (postTrack_spec hlt) ⟨hnew, fun _ => hzero⟩
    · exact Triple.final (track_spec hlt true) ⟨hnew, fun _ => hzero⟩
  -- the calls of contexts, of workers or inline, may come at any time
  | call call answers =>
    cases h
    exact ⟨n, ((hB n).perform _ call).final (hs.answered answers)⟩
  | recover k here answers =>
    cases h
    exact ⟨n, ((hB n).emitHandlerError k here).final (hs.answered answers)⟩
  | callback f answers =>
    obtain ⟨key, hkey, rfl⟩ := Option.map_eq_some_iff.1 h
    have hlt : key.data < n := hs.accepted ▸ (hs.books.data f key hkey).1
    have hserve := (hB n).serve ((hB n).perform (answers.length + 1)) true
    exact ⟨n, ((hB n).callback _ hserve key.data hlt).final (hs.answered answers)⟩
  -- the one step that the condition is about
  | drain =>
    obtain ⟨sel, hsel, rfl⟩ := Option.map_eq_some_iff.1 h
    exact ⟨n, inv_drain hs htimely hsel⟩
  | sweep late answers =>
    cases h
    exact ⟨n, ((hB n).cleanupStale late).final (hs.answered answers)⟩
  | beginShutdown =>
    cases h
    exact ⟨n, hs.of_same rfl rfl (fun _ => rfl) rfl⟩
  | popOp =>
    obtain ⟨-, hpop⟩ := Option.ite_none_right_eq_some.1 h
    exact ⟨n, inv_popOp hs hpop⟩
  | walk f =>
    obtain ⟨-, hwalk⟩ := Option.ite_none_right_eq_some.1 h
    obtain ⟨key, -, rfl⟩ := Option.map_eq_some_iff.1 hwalk
    exact ⟨n, inv_walk hs key⟩

theorem inv_start : Inv 0 State.start where
  books :=
    ⟨Selector.inv_start, fun _ _ h => (by cases h), fun _ h => (by cases h),
      fun _ h => (by cases h)⟩
  accepted := rfl
  ctxs _ h := absurd h (Nat.not_lt_zero _)
  mode _ _ h := by cases h

end

/-- Connection `c` is registered with the selector: it is marked `tracked`, or a key of the map
dispatches to it. -/
def Registered (s : State) (c : Nat) : Prop := s.sel.tracked c = true ∨ Listed s.sel c

/-- The open socket of a registered connection is in non-blocking mode. -/
def NonBlocking (s : State) : Prop := ∀ c, s.sel.isOpen c = true → Registered s c → s.timeout c = 0

theorem Inv.nonBlocking {n : Nat} {s : State} (hs : Inv n s) : NonBlocking s := by
  rintro c hopen (hmark | hlisted)
  · exact hs.mode c trivial hopen hmark
  · exact hs.mode c trivial hopen (hs.books.listed c hopen hlisted)

/-- The native backends. -/
inductive Kind where
  | h11
  | httptools
  deriving DecidableEq, Repr

/-- The backend of the configuration. -/
def Kind.backend (cfg : Config) : Kind → Backend
  | .h11 => SocketMode.h11 cfg
  | .httptools => SocketMode.httptools cfg

theorem Kind.safe (cfg : Config) (kind : Kind) (n : Nat) : (kind.backend cfg).Safe n := by
  cases kind with
  | h11 => exact safe_h11 cfg n
  | httptools => exact safe_httptools cfg n

/-- In every run, on both backends, with any exception at any call: when no call is in progress, the
open socket of a registered connection is in non-blocking mode, as long as no track is applied to a
connection that has been borrowed again. -/
theorem nonblocking_when_registered (cfg : Config) (kind : Kind) {as : List Act}
    (hmeets : (system (kind.backend cfg)).Meets Timely State.start as) :
    (system (kind.backend cfg)).Throughout NonBlocking State.start as := by
  have hinv : (system (kind.backend cfg)).Throughout (fun s => ∃ n, Inv n s) State.start as :=
    Lts.throughout_of_meets (I := fun _ => True) (fun _ _ _ _ _ => trivial)
      (fun _ _ _ _ ⟨_, hs⟩ htimely hstep => step_inv (kind.safe cfg) hs htimely hstep) trivial
        ⟨0, inv_start⟩ hmeets
  exact hinv.mono fun _ ⟨_, hs⟩ => hs.nonBlocking

/-- A timeout of one second. -/
def oneSecond : Config := ⟨1, 100, fun _ => [72], [], [], []⟩

/-- A request goes to a worker. It has to wait for the body, and its response stalls twice. -/
def slowPeer : List Act := [
  .accept 5 false,
  .callback 5
    [.received [1], .fed [.headersComplete [80] [] true ⟨[⟨0, .dispatch, true⟩], none⟩] false,
      .started []],
  .call ⟨0, .receive 10, false⟩
    [.raises .blockingIOError, .received [2], .fed [.body [2], .messageComplete] false],
  .call ⟨0, .complete ⟨200, [], []⟩ none, false⟩ [.raises .timeout],
  .call ⟨0, .finishResponse, false⟩ [.sent 1, .raises .blockingIOError, .returns],
  .drain]

/-- The worker's socket blocks until the connection is given back. -/
theorem nonblocking_behind_slowPeer :
    ((system (Kind.httptools.backend oneSecond)).exec State.start (slowPeer.take 4)).any
      (fun s => s.timeout 0 = 1) = true ∧
    ((system (Kind.httptools.backend oneSecond)).exec State.start slowPeer).any
      (fun s => s.sel.tracked 0) = true ∧
    (system (Kind.httptools.backend oneSecond)).Throughout NonBlocking State.start slowPeer :=
  ⟨by decide +kernel, by decide +kernel, nonblocking_when_registered oneSecond .httptools (by
    decide +kernel)⟩

/-- The worker of the first request completes it before `_loop` goes on, and `_loop` finds the
connection tracked and dispatches the second one. Then the selector applies the track of the first
worker, and the second has to wait for the body. -/
def lateTrack : List Act := [
  .accept 5 false,
  .callback 5
    [.states .idle false, .event .needData, .received [1], .returns, .states .idle false,
      .event (.request [71] [] ⟨[⟨0, .dispatch, true⟩], none⟩),
      .started [⟨0, .complete ⟨200, [], []⟩ none, false⟩], .payload (some [72]),
        .payload none, .sent 1,
      .states .done true, .states .done true, .states .done true, .returns,
        .event .needData, .received [1],
      .returns, .states .idle false,
        .event (.request [80] [] ⟨[⟨1, .dispatch, true⟩], none⟩), .started []],
  .drain,
  .call ⟨1, .receive 10, false⟩
    [.states .idle false, .waiting false, .event .needData, .raises .blockingIOError, .received [2],
      .returns, .event (.data [2])]]

/-- The selector has a connection in its map whose socket blocks; the context that was given back
has not been used again. -/
theorem blocking_behind_lateTrack :
    ∃ s, (system (Kind.h11.backend oneSecond)).exec State.start lateTrack = some s ∧
      s.sel.isOpen 0 = true ∧ s.sel.map 5 = some ⟨0, 0⟩ ∧ s.timeout 0 = 1 ∧ ¬NonBlocking s := by
  have hrun : ((system (Kind.h11.backend oneSecond)).exec State.start lateTrack).any (fun s =>
      s.sel.isOpen 0 && decide (s.sel.map 5 = some ⟨0, 0⟩) && decide (s.timeout 0 = 1)) = true := by
    decide +kernel
  rw [Option.any_eq_true] at hrun
  obtain ⟨s, hs, hs'⟩ := hrun
  simp only [Bool.and_eq_true, decide_eq_true_eq] at hs'
  obtain ⟨⟨hopen, hkey⟩, htimeout⟩ := hs'
  refine ⟨s, hs, hopen, hkey, htimeout, fun h => ?_⟩
  have hzero := h 0 hopen (.inr ⟨5, ⟨0, 0⟩, hkey, rfl⟩)
  rw [htimeout] at hzero
  cases hzero

end LocalPost.Http.SocketMode
