import LocalPost.Http.Writer.Message
import LocalPost.Http.Wsgi.Environ

/-!
# Serving a handler under WSGI

`to_wsgi` runs the handler on a context that only captures the answer; the body is read after the
handler has returned. What it is read from, files and iterators, lives in a `World`: to close a file
makes its reads raise, to close an iterator ends it.

A handler is what it answers to a request, in which world, and which resources it closes between
that and its return (the `with` blocks it leaves and its `finally` clauses). What it has handed over
it does not use any more: it is the transport that iterates.
-/

set_option autoImplicit false

namespace LocalPost.Http.Wsgi

open LocalPost.Core LocalPost.Http.Writer

/-- The resources by number: the bytes of a file, `none` when it is closed, and what an iterator has
yet to yield. -/
structure World where
  file : Nat → Option Bytes
  iterator : Nat → List Bytes

namespace World

/-- `close` of several resources. -/
def leave (exit : List Nat) (w : World) : World where
  file := fun r => if r ∈ exit then none else w.file r
  iterator := fun r => if r ∈ exit then [] else w.iterator r

/-- The world after an iterator has been read to its end. -/
def drain (r : Nat) (w : World) : World :=
  { w with iterator := fun s => if s = r then [] else w.iterator s }

theorem leave_file (exit : List Nat) (w : World) (f : Nat) :
    (w.leave exit).file f = if f ∈ exit then none else w.file f := rfl

theorem leave_iterator (exit : List Nat) (w : World) (r : Nat) :
    (w.leave exit).iterator r = if r ∈ exit then [] else w.iterator r := rfl

theorem drain_leave (r : Nat) (exit : List Nat) (w : World) :
    (w.leave exit).drain r = (w.drain r).leave exit := by
  rw [drain, leave, leave, drain]
  congr 1
  funext s
  by_cases hs : s = r
  · simp [hs]
  · simp [hs]

end World

/-- A part of what the chunk iterator of a handler yields: bytes it holds itself, all that another
iterator still yields, or what it reads from a file. -/
inductive Piece where
  | bytes (b : Bytes)
  | rest (r : Nat)
  | read (f offset size : Nat)
  deriving DecidableEq, Repr

/-- The chunks, up to a read from a closed file; and whether there was one. -/
def chunksOf : World → List Piece → List Bytes × Bool
  | _, [] => ([], false)
  | w, .bytes b :: pieces => (b :: (chunksOf w pieces).1, (chunksOf w pieces).2)
  | w, .rest r :: pieces =>
    (w.iterator r ++ (chunksOf (w.drain r) pieces).1, (chunksOf (w.drain r) pieces).2)
  | w, .read f offset size :: pieces =>
    match w.file f with
    | none => ([], true)
    | some data => ((data.drop offset).take size :: (chunksOf w pieces).1, (chunksOf w pieces).2)

theorem chunksOf_read {w : World} {f : Nat} {data : Bytes} (h : w.file f = some data)
    (offset size : Nat) (pieces : List Piece) :
    chunksOf w (.read f offset size :: pieces) =
      ((data.drop offset).take size :: (chunksOf w pieces).1, (chunksOf w pieces).2) := by
  rw [chunksOf, h]

theorem chunksOf_read_closed {w : World} {f : Nat} (h : w.file f = none) (offset size : Nat)
    (pieces : List Piece) : chunksOf w (.read f offset size :: pieces) = ([], true) := by
  rw [chunksOf, h]

/-- A call of one of the response methods. -/
inductive Asked where
  | complete (r : Response) (body : Option Bytes)
  | stream (r : Response) (pieces : List Piece)
  | sendfile (r : Response) (f offset count : Nat)
  deriving DecidableEq, Repr

/-- What a handler does with a request. -/
structure Call where
  world : World
  asked : Asked
  exit : List Nat

/-! ## The captured answer -/

/-- The fields of `_WSGIReqCtx` that capture the answer. -/
structure Captured where
  completed : Option (Response × Bytes)
  streaming : Option (Response × List Piece)
  sendfile : Option (Response × Nat × Nat × Nat)
  deriving DecidableEq, Repr

/-- `_WSGIReqCtx.complete`, `stream` and `sendfile`. -/
def capture : Asked → Captured
  | .complete r body => ⟨some (r, body.getD []), none, none⟩
  | .stream r pieces => ⟨none, some (r, pieces), none⟩
  | .sendfile r f offset count => ⟨none, none, some (r, f, offset, count)⟩

/-- `DEFAULT_BUFFER_SIZE`. -/
def defaultBufferSize : Nat := 65536

/-- The blocks read up to the first empty one, of at most `fuel`. -/
def blocks (read : Nat → Bytes → Bytes) : Nat → Nat → Bytes → List Bytes
  | 0, _, _ => []
  | fuel + 1, remaining, data =>
    let chunk := read remaining data
    if chunk = [] then []
    else chunk :: blocks read fuel (remaining - chunk.length) (data.drop chunk.length)

/-- `_read_chunks` on a file from its position on. A block has at least one byte, so the count is
enough fuel. -/
def readChunks (count : Nat) (data : Bytes) : List Bytes :=
  blocks (fun remaining data =>
    if remaining > 0 then data.take (min defaultBufferSize remaining) else []) count count data

/-- `_LimitedReader.read(n)` for a positive `n`. -/
def limitedRead (n remaining : Nat) (data : Bytes) : Bytes :=
  if remaining = 0 then [] else data.take (if n > remaining then remaining else n)

/-- The iteration of a `file_wrapper` over a `_LimitedReader`. -/
def wrapperChunks (count : Nat) (data : Bytes) : List Bytes :=
  blocks (limitedRead defaultBufferSize) count count data

/-- `_respond` and the iteration of what it returns: the status and the body; `none` when either
raises. `wrapper` says whether the environ has a `wsgi.file_wrapper`. -/
def respond (wrapper : Bool) (w : World) (c : Captured) : Option (Nat × Bytes) :=
  match c.completed, c.streaming, c.sendfile with
  | some (r, body), _, _ => some (r.statusCode, body)
  | none, some (r, pieces), _ =>
    if (chunksOf w pieces).2 then none else some (r.statusCode, (chunksOf w pieces).1.flatten)
  | none, none, some (r, f, offset, count) =>
    (w.file f).map fun data =>
      (r.statusCode, (if wrapper then wrapperChunks count (data.drop offset)
        else readChunks count (data.drop offset)).flatten)
  | none, none, none => none

/-- Reads that stop only at the end of the file or of the count give all bytes up to either. -/
theorem flatten_blocks {read : Nat → Bytes → Bytes}
    (h : ∀ remaining data, ∃ k, read remaining data = data.take k ∧ k ≤ remaining ∧
      (0 < remaining → 0 < k)) {fuel remaining : Nat} (hfuel : remaining ≤ fuel) (data : Bytes) :
    (blocks read fuel remaining data).flatten = data.take remaining := by
  induction fuel generalizing remaining data with
  | zero =>
    rw [Nat.le_zero.1 hfuel]
    rfl
  | succ fuel ih =>
    obtain ⟨k, hread, hle, hpos⟩ := h remaining data
    rw [blocks, hread]
    by_cases hempty : data.take k = []
    · rw [if_pos hempty]
      -- nothing was read: nothing remains to be read, or the data are at their end
      rcases List.take_eq_nil_iff.1 hempty with hk | hdata
      · have hzero : remaining = 0 := by omega
        rw [hzero]
        rfl
      · rw [hdata, List.take_nil]
        rfl
    · have hlen := List.length_pos_iff.2 hempty
      have hlenle : (data.take k).length ≤ k := List.length_take_le k data
      have htake : data.take (data.take k).length = data.take k := by
        rw [List.length_take, ← List.take_take, List.take_length]
      rw [if_neg hempty, List.flatten_cons, ih (by omega)]
      -- what was read and what the rest of the loop reads, put together
      calc data.take k ++ (data.drop (data.take k).length).take (remaining - (data.take k).length)
          = data.take (data.take k).length ++
              (data.drop (data.take k).length).take
                (remaining - (data.take k).length) := by rw [htake]
        _ = data.take ((data.take k).length + (remaining - (data.take k).length)) :=
            List.take_add.symm
        _ = data.take remaining := by
            congr 1
            omega

theorem flatten_readChunks (count : Nat) (data : Bytes) :
    (readChunks count data).flatten = data.take count := by
  refine flatten_blocks (fun remaining data => ?_) (Nat.le_refl count) data
  by_cases hpos : remaining > 0
  · refine ⟨min defaultBufferSize remaining, if_pos hpos, Nat.min_le_right _ _, fun _ => ?_⟩
    exact Nat.lt_min.2 ⟨by decide, hpos⟩
  · exact ⟨0, if_neg hpos, Nat.zero_le _, fun h => absurd h hpos⟩

/-- The wrapper around a file yields what was asked for of it. -/
theorem flatten_wrapperChunks (count : Nat) (data : Bytes) :
    (wrapperChunks count data).flatten = data.take count := by
  refine flatten_blocks (fun remaining data => ?_) (Nat.le_refl count) data
  by_cases hzero : remaining = 0
  · exact ⟨0, if_pos hzero, Nat.zero_le _, fun h => absurd hzero (by omega)⟩
  · refine ⟨if defaultBufferSize > remaining then remaining else defaultBufferSize,
      if_neg hzero, ?_, ?_⟩
    · split <;> omega
    · intro hpos
      split
      · exact hpos
      · decide

end LocalPost.Http.Wsgi
