import LocalPost.Http.Types

/-!
# The httptools connection: parser callbacks and per-request slots

`Conn` holds the fields of `HTTPConn` that the callbacks of the parser, `_loop` and `receive` read
and write. Everything that belongs to one request (`ctx`, the body buffer, the completion flags, the
deferred dispatch) is a single slot on the connection. Contexts are numbered in the order of their
creation.

The parser itself is a library: it turns the bytes of the connection into the callbacks below, in
stream order, and `feed_data` fires those of one chunk. A target and a body may come in several
pieces, cut where the chunks are.
-/

set_option autoImplicit false

namespace LocalPost.Http.Httptools

/-- The callbacks of the parser, with what they read from it. -/
inductive Callback where
  | messageBegin
  | url (url : Bytes)
  | header (name value : Bytes)
  | headersComplete (method version : Bytes) (keepAlive : Bool)
  | body (data : Bytes)
  | messageComplete
  deriving DecidableEq, Repr

/-- `_cur_*`: the head being parsed. -/
structure Scratch where
  target : Bytes
  targetBuf : Option Bytes
  headers : List (Bytes × Bytes)
  expect100 : Bool
  oversize : Bool
  deriving DecidableEq, Repr

/-- The connection. `tracked` is the flag the selector and `ctx.borrowed` look at. -/
structure Conn where
  cur : Scratch
  ctx : Option Nat
  bodyBuf : Bytes
  bodyEom : Bool
  messageComplete : Bool
  bodyTooLarge : Option Int
  deferred : Option Nat
  closeAfterResponse : Bool
  responseStarted : Bool
  tracked : Bool
  isOpen : Bool
  deriving DecidableEq, Repr

namespace Conn

/-- A tracked connection before its first byte. -/
def start : Conn where
  cur := ⟨[], none, [], false, false⟩
  ctx := none
  bodyBuf := []
  bodyEom := false
  messageComplete := false
  bodyTooLarge := none
  deferred := none
  closeAfterResponse := false
  responseStarted := false
  tracked := true
  isOpen := true

/-- `on_message_begin`. -/
def onMessageBegin (c : Conn) : Conn := { c with cur := ⟨[], none, [], false, false⟩ }

/-- `on_url`: the second and later pieces go to a buffer. -/
def onUrl (c : Conn) (url : Bytes) : Conn :=
  if c.cur.target = [] then { c with cur := { c.cur with target := url } }
  else { c with cur := { c.cur with targetBuf := some (c.cur.targetBuf.getD c.cur.target ++ url) } }

/-- `on_header`. -/
def onHeader (c : Conn) (name value : Bytes) : Conn :=
  let n := name.lower
  let v := value.rstripOws
  { c with cur := { c.cur with
      headers := c.cur.headers ++ [(n, v)]
      expect100 := c.cur.expect100 || (n = Bytes.expectName && v.lower = Bytes.continueValue) } }

/-- The target is flattened in `on_headers_complete`. -/
def flattenTarget (c : Conn) : Conn :=
  { c with cur := { c.cur with target := c.cur.targetBuf.getD c.cur.target, targetBuf := none } }

/-- The test at the top of `on_body`: the handler has responded inline. -/
def drops (c : Conn) : Bool := c.responseStarted && c.ctx.isSome && c.tracked

/-- `on_body`. What comes after an inline response is dropped; the buffer is what is checked against
the limit. -/
def onBody (max : Nat) (c : Conn) (data : Bytes) : Conn :=
  if c.cur.oversize then c
  else if c.responseStarted && c.ctx.isSome && c.tracked then c
  else if c.bodyBuf.length + data.length > max then
    { c with bodyTooLarge := some (c.bodyBuf.length + data.length : Nat) }
  else { c with bodyBuf := c.bodyBuf ++ data }

/-- `on_message_complete`. -/
def onMessageComplete (c : Conn) : Conn := { c with bodyEom := true, messageComplete := true }

/-- `_reset_for_next_request`. -/
def resetForNextRequest (c : Conn) : Conn :=
  { c with
    ctx := none
    bodyBuf := []
    bodyEom := false
    messageComplete := false
    responseStarted := false
    closeAfterResponse := false
    deferred := none }

/-- `close`. -/
def close (c : Conn) : Conn := { c with tracked := false, isOpen := false }

/-- What `on_body` does with a piece: nothing, or it sets the flag, or it buffers the piece. -/
theorem onBody_cases (max : Nat) (c : Conn) (data : Bytes) :
    ((c.cur.oversize = true ∨ c.drops = true) ∧ c.onBody max data = c) ∨
    (c.cur.oversize = false ∧ c.drops = false ∧ c.bodyBuf.length + data.length > max ∧
      c.onBody max data = { c with bodyTooLarge := some (c.bodyBuf.length + data.length : Nat) }) ∨
    (c.cur.oversize = false ∧ c.drops = false ∧ c.bodyBuf.length + data.length ≤ max ∧
      c.onBody max data = { c with bodyBuf := c.bodyBuf ++ data }) := by
  cases hover : c.cur.oversize with
  | true => exact .inl ⟨.inl rfl, by simp [onBody, hover]⟩
  | false =>
    cases hdrop : c.drops with
    | true =>
      refine .inl ⟨.inr rfl, ?_⟩
      unfold drops at hdrop
      simp [onBody, hover, hdrop]
    | false =>
      unfold drops at hdrop
      by_cases hlen : c.bodyBuf.length + data.length > max
      · exact .inr (.inl ⟨rfl, rfl, hlen, by simp [onBody, hover, hdrop, hlen]⟩)
      · exact .inr (.inr ⟨rfl, rfl, by omega, by simp [onBody, hover, hdrop, hlen]⟩)

/-- `on_body` touches the buffer and the flag only, and a flag that is set stays set. -/
theorem onBody_slots (max : Nat) (c : Conn) (data : Bytes) :
    (c.onBody max data).ctx = c.ctx ∧ (c.onBody max data).cur = c.cur ∧
    (c.onBody max data).bodyEom = c.bodyEom ∧
    (c.onBody max data).messageComplete = c.messageComplete ∧
    (c.onBody max data).closeAfterResponse = c.closeAfterResponse ∧
    (c.onBody max data).deferred = c.deferred ∧ (c.onBody max data).isOpen = c.isOpen ∧
    (c.bodyTooLarge.isSome = true → (c.onBody max data).bodyTooLarge.isSome = true) := by
  rcases onBody_cases max c data with ⟨-, heq⟩ | ⟨-, -, -, heq⟩ | ⟨-, -, -, heq⟩ <;> simp [heq]

end Conn

end LocalPost.Http.Httptools
