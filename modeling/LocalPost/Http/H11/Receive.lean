import LocalPost.Core.Lts
import LocalPost.Http.Types

/-!
# The body limit of the h11 backend

The parser is a library: what `next_event` reports is up to the environment, so it comes with the
action. `receive` counts the body bytes of a request in `body_bytes_received`, whatever the handler
has taken before, and raises once the count is above the limit; the count starts again with
`start_next_cycle`. `capped` needs nothing of the parser and nothing of the handler.

A handler on the selector thread and one on a worker call the same `receive`.
-/

set_option autoImplicit false

namespace LocalPost.Http.H11

open LocalPost.Core

/-- `parser.their_state`: no request yet, in a body, after the end of the message. -/
inductive TheirState where
  | idle
  | sendBody
  | done
  deriving DecidableEq, Repr

/-- A request being served: what `receive` has returned, the number of body bytes the parser has
reported to it, and whether it has returned `b""` or raised `BodyTooLarge`. -/
structure Ctx where
  got : Bytes
  arrived : Nat
  sawEom : Bool
  raised : Bool
  deriving DecidableEq, Repr

/-- The connection. `rejected` counts the 413 responses of `_loop`. -/
structure Conn where
  theirState : TheirState
  ourDone : Bool
  bodyBytesReceived : Nat
  isOpen : Bool
  current : Option Ctx
  served : List Ctx
  rejected : Nat
  deriving DecidableEq, Repr

namespace Conn

/-- A fresh connection. -/
def start : Conn := ⟨.idle, false, 0, true, none, [], 0⟩

/-- The top of `_loop`: when both sides are done, `start_next_cycle`. -/
def startNextCycle (c : Conn) : Conn :=
  if c.ourDone && c.theirState = .done then
    { c with theirState := .idle, ourDone := false, bodyBytesReceived := 0 }
  else c

/-- `_loop` is reported a `Request`: a declared length above the limit raises, else the handler is
called. -/
def onRequest (max : Nat) (c : Conn) (headers : List (Bytes × Bytes)) : Option Conn :=
  let c := c.startNextCycle
  if c.theirState = .idle ∧ c.current = none then
    if (contentLength headers).any (fun n => n > (max : Int)) then
      some { c with isOpen := false, rejected := c.rejected + 1 }
    else some { c with theirState := .sendBody, current := some ⟨[], 0, false, false⟩ }
  else none

/-- `receive` is reported `Data`. -/
def onData (max : Nat) (c : Conn) (data : Bytes) : Option Conn :=
  match c.current with
  | some ctx =>
    if c.theirState = .sendBody then
      let n := c.bodyBytesReceived + data.length
      if n > max then some { c with
        bodyBytesReceived := n
        current := some { ctx with arrived := ctx.arrived + data.length, raised := true } }
      else some { c with
        bodyBytesReceived := n
        current := some { ctx with
          arrived := ctx.arrived + data.length, got := ctx.got ++ data } }
    else none
  | none => none

/-- `receive` is reported `EndOfMessage`, or finds the parser done: it returns `b""`. -/
def onEnd (c : Conn) : Option Conn :=
  c.current.bind fun ctx =>
    if c.theirState = .idle then none
    else some { c with theirState := .done, current := some { ctx with sawEom := true } }

/-- `finish_response`: what is left of the body is drained, or the connection is closed when the
parser needs more bytes for that. -/
def finishResponse (c : Conn) (drained : Bool) : Option Conn :=
  c.current.map fun ctx =>
    { c with
      ourDone := true, current := none, served := c.served ++ [ctx]
      theirState := if drained then .done else c.theirState
      isOpen := c.isOpen && (drained || c.theirState = .done) }

/-- `close`. -/
def close (c : Conn) : Conn :=
  { c with isOpen := false, current := none, served := c.served ++ c.current.toList }

end Conn

/-- One step, with what the parser reports in it. -/
inductive Act where
  | request (headers : List (Bytes × Bytes))
  | data (data : Bytes)
  | endOfMessage
  | finishResponse (drained : Bool)
  | close
  deriving DecidableEq, Repr

/-- The backend on one connection, with any parser and any handler. -/
def system (max : Nat) : Lts Conn Act where
  init c := c = Conn.start
  step c a :=
    if c.isOpen then
      match a with
      | .request headers => c.onRequest max headers
      | .data data => c.onData max data
      | .endOfMessage => c.onEnd
      | .finishResponse drained => c.finishResponse drained
      | .close => some c.close
    else none

/-! ## The limit -/

/-- A handler gets at most `max` bytes, and when it reaches the end of a larger body, `BodyTooLarge`
was raised before. -/
def Ctx.Capped (max : Nat) (ctx : Ctx) : Prop :=
  ctx.got.length ≤ max ∧ (ctx.sawEom = true → ctx.arrived ≤ max ∨ ctx.raised = true)

/-- Every request on the connection is within the limit. -/
def Conn.Capped (max : Nat) (c : Conn) : Prop :=
  (∀ ctx ∈ c.served, ctx.Capped max) ∧ ∀ ctx, c.current = some ctx → ctx.Capped max

/-- The counter is the number of bytes the parser has reported, and nothing above the limit was
handed out. -/
structure Conn.Counted (max : Nat) (c : Conn) : Prop where
  served : ∀ ctx ∈ c.served, ctx.Capped max
  current : ∀ ctx, c.current = some ctx → ctx.got.length ≤ max ∧
    ctx.arrived = c.bodyBytesReceived ∧ (ctx.arrived ≤ max ∨ ctx.raised = true) ∧
    ctx.got.length ≤ ctx.arrived
  fresh : c.theirState = .idle → c.bodyBytesReceived = 0

namespace Conn.Counted

variable {max : Nat} {c c' : Conn}

theorem start : Counted max Conn.start where
  served _ h := by cases h
  current _ h := by cases h
  fresh _ := rfl

theorem capped (h : Counted max c) : c.Capped max :=
  ⟨h.served, fun ctx hc => ⟨(h.current ctx hc).1, fun _ => (h.current ctx hc).2.2.1⟩⟩

theorem startNextCycle (h : Counted max c) (hc : c.current = none) :
    Counted max c.startNextCycle := by
  unfold Conn.startNextCycle
  split
  · exact {
      served := h.served
      current := fun ctx hctx => by cases hc.symm.trans hctx
      fresh := fun _ => rfl }
  · exact h

theorem startNextCycle_current : c.startNextCycle.current = c.current := by
  unfold Conn.startNextCycle
  split <;> rfl

theorem request (h : Counted max c) {headers : List (Bytes × Bytes)}
    (hstep : c.onRequest max headers = some c') : Counted max c' := by
  obtain ⟨⟨hidle, hnone⟩, hstep⟩ := Option.ite_none_right_eq_some.1 hstep
  rw [startNextCycle_current] at hnone
  have hcycle := h.startNextCycle hnone
  split at hstep
  · cases hstep
    exact { hcycle with }
  · cases hstep
    refine { hcycle with
      current := fun ctx hctx => ?_
      fresh := fun hf => (by cases hf) }
    cases hctx
    exact ⟨Nat.zero_le _, (hcycle.fresh hidle).symm, .inl (Nat.zero_le _), Nat.le_refl _⟩

theorem data (h : Counted max c) {data : Bytes} (hstep : c.onData max data = some c') :
    Counted max c' := by
  unfold Conn.onData at hstep
  split at hstep
  · rename_i ctx hctx
    obtain ⟨hbody, hstep⟩ := Option.ite_none_right_eq_some.1 hstep
    obtain ⟨hgot, harrived, hover, hle⟩ := h.current ctx hctx
    simp only at hstep
    -- the piece that exceeds the bound is not delivered
    split at hstep
    · cases hstep
      refine { h with
        current := fun d hd => ?_
        fresh := fun hf => (by cases hbody.symm.trans hf) }
      cases hd
      exact ⟨hgot, by rw [harrived], .inr rfl, Nat.le_add_right_of_le hle⟩
    -- a piece that fits is delivered and counted
    · rename_i hfit
      cases hstep
      refine { h with
        current := fun d hd => ?_
        fresh := fun hf => (by cases hbody.symm.trans hf) }
      cases hd
      have hlen : (ctx.got ++ data).length = ctx.got.length + data.length := List.length_append
      have hcount : ctx.arrived + data.length = c.bodyBytesReceived + data.length := by
        rw [harrived]
      have hmax : ctx.arrived + data.length ≤ max := by omega
      have hle' : (ctx.got ++ data).length ≤ ctx.arrived + data.length := by omega
      exact ⟨hle'.trans hmax, hcount, .inl hmax, hle'⟩
  · cases hstep

theorem onEnd (h : Counted max c) (hstep : c.onEnd = some c') : Counted max c' := by
  obtain ⟨ctx, hctx, hstep⟩ := Option.bind_eq_some_iff.1 hstep
  split at hstep
  · cases hstep
  · cases hstep
    refine { h with current := fun d hd => ?_, fresh := fun hf => (by cases hf) }
    cases hd
    exact h.current ctx hctx

/-- What is served is within the limit: a context leaves with the counter it has. -/
theorem leave (h : Counted max c) {ctx : Ctx} (hctx : c.current = some ctx) : ctx.Capped max :=
  h.capped.2 ctx hctx

theorem finishResponse (h : Counted max c) {drained : Bool}
    (hstep : c.finishResponse drained = some c') : Counted max c' := by
  obtain ⟨ctx, hctx, rfl⟩ := Option.map_eq_some_iff.1 hstep
  refine { served := fun d hd => ?_, current := fun d hd => (by cases hd), fresh := fun hf => ?_ }
  · rcases List.mem_append.1 hd with hd | hd
    · exact h.served d hd
    · rw [List.mem_singleton.1 hd]
      exact h.leave hctx
  · simp only at hf
    split at hf
    · cases hf
    · exact h.fresh hf

theorem close (h : Counted max c) : Counted max c.close := by
  refine { h with served := fun d hd => ?_, current := fun d hd => (by cases hd) }
  rcases List.mem_append.1 hd with hd | hd
  · exact h.served d hd
  · exact h.leave (by simpa using hd)

/-- Every step keeps the count. -/
theorem step {a : Act} (h : Counted max c) (hstep : (system max).step c a = some c') :
    Counted max c' := by
  obtain ⟨-, hstep⟩ := Option.ite_none_right_eq_some.1 hstep
  cases a with
  | request headers => exact h.request hstep
  | data data => exact h.data hstep
  | endOfMessage => exact h.onEnd hstep
  | finishResponse drained => exact h.finishResponse hstep
  | close =>
    cases hstep
    exact h.close

end Conn.Counted

/-- No run of the backend hands a handler more than the limit. -/
theorem capped {max : Nat} {c : Conn} (h : (system max).Reachable c) : c.Capped max :=
  (Lts.invariant (I := Conn.Counted max)
    (fun _ hs => by
      cases hs
      exact .start)
    (fun _ _ _ hi hstep => hi.step hstep) h).capped

end LocalPost.Http.H11
