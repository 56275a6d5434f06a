import LocalPost.Http.Body.Read

/-!
# A request body on a socket

`Net` is what `recv` returns from the dispatch of a request on, with what the parser finds of the
body in each chunk of bytes. The socket goes on returning `b""` after a FIN and raising after a
failure (a reset, or no bytes within `rw_timeout`).
-/

set_option autoImplicit false

namespace LocalPost.Http

/-- The data of one body event. A parser reports no empty ones. -/
abbrev Piece := {b : Bytes // b ≠ []}

/-- What follows the body events of a chunk: more chunks, the end of the message, or bytes that are
a protocol error. -/
inductive Mark where
  | more
  | endOfMessage
  | malformed
  deriving DecidableEq, Repr

/-- What the parser finds of the body in the bytes of one `recv`. -/
structure Chunk where
  pieces : List Piece
  mark : Mark
  deriving DecidableEq, Repr

/-- The data of the events. -/
def Chunk.datas (c : Chunk) : List Bytes := c.pieces.map Subtype.val

def Chunk.bytes (c : Chunk) : Bytes := c.datas.flatten

/-- The results of `recv`. -/
inductive Net where
  | fin
  | fails
  | chunk (c : Chunk) (rest : Net)
  deriving DecidableEq, Repr

namespace Net

/-- The number of body bytes. -/
def size : Net → Nat
  | fin => 0
  | fails => 0
  | chunk c rest => c.bytes.length + rest.size

/-- What arrives of the body. -/
def delivery : Net → Delivery
  | fin => ⟨[], .gone⟩
  | fails => ⟨[], .failed⟩
  | chunk c rest =>
    match c.mark with
    | .more => rest.delivery.after c.bytes
    | .endOfMessage => ⟨c.bytes, .endOfMessage⟩
    | .malformed => ⟨c.bytes, .failed⟩

/-- No chunk of the body is larger than `max`. -/
def Fits (max : Nat) : Net → Prop
  | fin => True
  | fails => True
  | chunk c rest => c.bytes.length ≤ max ∧ (c.mark = .more → rest.Fits max)

end Net

end LocalPost.Http
