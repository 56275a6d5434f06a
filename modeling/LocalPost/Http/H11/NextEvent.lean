import LocalPost.Http.Body.Net
import Mathlib.Algebra.GroupWithZero.Nat

/-!
# Reading a body on h11

`receive` asks the parser for the next event and feeds it while it needs data. The parser is a
library: `Documented` is what it says about a message body, in terms of the events in the bytes it
has been fed and has not reported. In particular it reports a protocol error when the connection is
closed inside a body.
-/

set_option autoImplicit false

namespace LocalPost.Http.H11

/-- A body event in the bytes of the peer. -/
inductive Event where
  | data (piece : Piece)
  | endOfMessage
  | malformed
  deriving DecidableEq, Repr

def Event.size : Event → Nat
  | data piece => piece.val.length
  | endOfMessage => 0
  | malformed => 0

/-- The event that ends a chunk. -/
def markEvents : Mark → List Event
  | .more => []
  | .endOfMessage => [.endOfMessage]
  | .malformed => [.malformed]

def chunkEvents (c : Chunk) : List Event := c.pieces.map Event.data ++ markEvents c.mark

/-- What `next_event` reports, or the exception it raises. -/
inductive Reply where
  | needData
  | data (piece : Piece)
  | endOfMessage
  | remoteProtocolError
  | other
  deriving DecidableEq, Repr

/-- `h11.Connection` on the side of the peer, as `receive` uses it: `receive_data` (`none` is
`b""`), `next_event`, and whether `their_state` is `DONE`. -/
structure Parser (π : Type) where
  receiveData : π → Option Chunk → π
  nextEvent : π → Reply × π
  theirDone : π → Bool

/-- Inside a body the parser reports the events it has been fed one after the other. Without one it
needs data, or raises when the connection is closed. -/
structure Parser.Documented {π : Type} (P : Parser π) (queue : π → List Event) (closed : π → Bool) :
    Prop where
  fed : ∀ p c, P.theirDone p = false → closed p = false →
    queue (P.receiveData p (some c)) = queue p ++ chunkEvents c ∧
    closed (P.receiveData p (some c)) = false ∧ P.theirDone (P.receiveData p (some c)) = false
  eof : ∀ p, P.theirDone p = false → queue (P.receiveData p none) = queue p ∧
    closed (P.receiveData p none) = true ∧ P.theirDone (P.receiveData p none) = false
  data : ∀ p piece es, P.theirDone p = false → queue p = .data piece :: es →
    ∃ p', P.nextEvent p = (.data piece, p') ∧ queue p' = es ∧ closed p' = closed p ∧
      P.theirDone p' = false
  endOfMessage : ∀ p es, P.theirDone p = false → queue p = .endOfMessage :: es →
    ∃ p', P.nextEvent p = (.endOfMessage, p') ∧ P.theirDone p' = true
  malformed : ∀ p es, P.theirDone p = false → queue p = .malformed :: es →
    ∃ p', P.nextEvent p = (.remoteProtocolError, p')
  needData : ∀ p, P.theirDone p = false → queue p = [] → closed p = false →
    ∃ p', P.nextEvent p = (.needData, p') ∧ queue p' = [] ∧ closed p' = false ∧
      P.theirDone p' = false
  cut : ∀ p, P.theirDone p = false → queue p = [] → closed p = true →
    ∃ p', P.nextEvent p = (.remoteProtocolError, p')

/-- The connection while a body is read: the parser and `body_bytes_received`. -/
structure Reader (π : Type) where
  parser : π
  bodyBytesReceived : Nat

variable {π : Type}

namespace Reader

/-- The branches of `receive` for an event. The parser that has been told of the FIN would be fed
`b""` again if it still needed data. -/
def onEvent (max : Nat) (c : Reader π) (net : Net) : Reply → Except Stop (Bytes × Reader π × Net)
  | .needData => .error .waits
  | .data piece =>
    let n := c.bodyBytesReceived + piece.val.length
    if n > max then .error (.raises (.bodyTooLarge n))
    else .ok (piece.val, { c with bodyBytesReceived := n }, net)
  | .endOfMessage => .ok ([], c, net)
  | .remoteProtocolError => .error (.raises .remoteProtocolError)
  | .other => .error (.raises .runtimeError)

/-- The loop of `receive`. -/
def pump (P : Parser π) (max : Nat) : Net → Reader π → Except Stop (Bytes × Reader π × Net)
  | net, c =>
    match P.nextEvent c.parser with
    | (.needData, p) =>
      match net with
      | .fin =>
        let (reply, p) := P.nextEvent (P.receiveData p none)
        onEvent max { c with parser := p } .fin reply
      | .fails => .error (.raises .osError)
      | .chunk chunk rest => pump P max rest { c with parser := P.receiveData p (some chunk) }
    | (reply, p) => onEvent max { c with parser := p } net reply

/-- `receive(size)`; the size is passed on to `recv` only. -/
def receive (P : Parser π) (max : Nat) (net : Net) (c : Reader π) :
    Except Stop (Bytes × Reader π × Net) :=
  if P.theirDone c.parser then .ok ([], c, net) else c.pump P max net

end Reader

/-! ## What is handed out -/

/-- The events in a queue, and then what comes `after` them. -/
def handsOutEvents (max : Nat) : List Event → Nat → (Nat → Bytes × Last) → Bytes × Last
  | [], n, after => after n
  | .data piece :: es, n, after =>
    if n + piece.val.length > max then ([], .raises)
    else (piece.val ++ (handsOutEvents max es (n + piece.val.length) after).1,
      (handsOutEvents max es (n + piece.val.length) after).2)
  | .endOfMessage :: _, _, _ => ([], .empty)
  | .malformed :: _, _, _ => ([], .raises)

/-- What `receive` gets from `recv` when `n` bytes have been counted. -/
def handsOutNet (max : Nat) : Net → Nat → Bytes × Last
  | .fin, _ => ([], .raises)
  | .fails, _ => ([], .raises)
  | .chunk c rest, n => handsOutEvents max (chunkEvents c) n (handsOutNet max rest)

/-- The events the parser holds come first. -/
def handsOut (max : Nat) (queue : π → List Event) (closed : π → Bool) (s : Reader π × Net) :
    Bytes × Last :=
  handsOutEvents max (queue s.1.parser) s.1.bodyBytesReceived
    (if closed s.1.parser then fun _ => ([], .raises) else handsOutNet max s.2)

/-- The body bytes that can still be returned. -/
def left (queue : π → List Event) (s : Reader π × Net) : Nat :=
  ((queue s.1.parser).map Event.size).sum + s.2.size

theorem sum_chunkEvents (c : Chunk) : ((chunkEvents c).map Event.size).sum = c.bytes.length := by
  have hmark : ((markEvents c.mark).map Event.size).sum = 0 := by
    cases c.mark <;> rfl
  rw [chunkEvents, List.map_append, List.sum_append, hmark, Nat.add_zero, List.map_map, Chunk.bytes,
    Chunk.datas, List.length_flatten, List.map_map]
  rfl

variable {P : Parser π} {queue : π → List Event} {closed : π → Bool} {max : Nat}

/-- The outcomes of a call: `b""` when nothing more is handed out, or the next bytes of what is, or
an exception. -/
structure Outcome (P : Parser π) (queue : π → List Event) (closed : π → Bool) (max : Nat)
    (s : Reader π × Net) (result : Except Stop (Bytes × Reader π × Net)) : Prop where
  ended : ∀ s', result = .ok ([], s') → handsOut max queue closed s = ([], .empty)
  got : ∀ bytes s', result = .ok (bytes, s') → bytes ≠ [] → P.theirDone s'.1.parser = false ∧
    left queue s' < left queue s ∧
    (handsOut max queue closed s).1 = bytes ++ (handsOut max queue closed s').1 ∧
    (handsOut max queue closed s).2 = (handsOut max queue closed s').2
  stopped : ∀ e, result = .error e → (handsOut max queue closed s).2 = e.last

namespace Reader

theorem outcome_raises {s : Reader π × Net} {e : Error}
    (h : (handsOut max queue closed s).2 = .raises) :
    Outcome P queue closed max s (.error (.raises e)) where
  ended s' hr := by cases hr
  got bytes s' hr := by cases hr
  stopped e' hr := by
    cases hr
    exact h

/-- The parser holds an event: the loop does not turn. -/
theorem pump_event (hP : P.Documented queue closed) {c : Reader π} (net : Net)
    (hdone : P.theirDone c.parser = false) {event : Event} {es : List Event}
    (hq : queue c.parser = event :: es) :
    Outcome P queue closed max (c, net) (c.pump P max net) := by
  unfold pump
  cases event with
  -- a piece is handed out unless it exceeds the bound, and is off the queue
  | data piece =>
    obtain ⟨p', hnext, hq', hclosed, hdone'⟩ := hP.data c.parser piece es hdone hq
    rw [hnext]
    simp only [onEvent]
    split
    · rename_i hover
      exact outcome_raises (by simp [handsOut, hq, handsOutEvents, hover])
    · rename_i hfit
      refine ⟨fun s' hr => ?_, fun bytes s' hr hne => ?_, fun e hr => (by cases hr)⟩
      · simp only [Except.ok.injEq, Prod.mk.injEq] at hr
        exact absurd hr.1 piece.property
      · cases hr
        refine ⟨hdone', ?_, ?_, ?_⟩
        · have hpos := List.length_pos_iff.2 piece.property
          simp only [left, hq, hq', List.map_cons, List.sum_cons, Event.size]
          omega
        · simp only [handsOut, hq, hq', hclosed, handsOutEvents, if_neg hfit]
        · simp only [handsOut, hq, hq', hclosed, handsOutEvents, if_neg hfit]
  -- the end of the message is answered by `b""`
  | endOfMessage =>
    obtain ⟨p', hnext, -⟩ := hP.endOfMessage c.parser es hdone hq
    rw [hnext]
    refine ⟨fun s' _ => ?_, fun bytes s' hr hne => ?_, fun e hr => (by cases hr)⟩
    · simp only [handsOut, hq, handsOutEvents]
    · cases hr
      exact absurd rfl hne
  | malformed =>
    obtain ⟨p', hnext⟩ := hP.malformed c.parser es hdone hq
    rw [hnext]
    exact outcome_raises (by simp only [handsOut, hq, handsOutEvents])

/-- The parser does not need data: the loop does not turn. -/
theorem pump_ready (hP : P.Documented queue closed) {c : Reader π} (net : Net)
    (hdone : P.theirDone c.parser = false)
    (hready : ¬(queue c.parser = [] ∧ closed c.parser = false)) :
    Outcome P queue closed max (c, net) (c.pump P max net) := by
  cases hq : queue c.parser with
  | cons event es => exact pump_event hP net hdone hq
  | nil =>
    have hclosed : closed c.parser = true := by simpa [hq] using hready
    obtain ⟨p', hnext⟩ := hP.cut c.parser hdone hq hclosed
    unfold pump
    rw [hnext]
    exact outcome_raises (by simp [handsOut, hq, hclosed, handsOutEvents])

/-- Inside a body the loop has one of the outcomes. -/
theorem pump_outcome (hP : P.Documented queue closed) {c : Reader π} (net : Net)
    (hdone : P.theirDone c.parser = false) :
    Outcome P queue closed max (c, net) (c.pump P max net) := by
  induction net generalizing c with
  | fin =>
    by_cases hneeds : queue c.parser = [] ∧ closed c.parser = false
    · obtain ⟨hq, hclosed⟩ := hneeds
      obtain ⟨p', hnext, hq', -, hdone'⟩ := hP.needData c.parser hdone hq hclosed
      obtain ⟨hqeof, hceof, hdeof⟩ := hP.eof p' hdone'
      obtain ⟨p'', hnext'⟩ := hP.cut _ hdeof (hqeof.trans hq') hceof
      unfold pump
      simp only [hnext, hnext']
      exact outcome_raises (by simp [handsOut, hq, hclosed, handsOutEvents, handsOutNet])
    · exact pump_ready hP .fin hdone hneeds
  | fails =>
    by_cases hneeds : queue c.parser = [] ∧ closed c.parser = false
    · obtain ⟨hq, hclosed⟩ := hneeds
      obtain ⟨p', hnext, -⟩ := hP.needData c.parser hdone hq hclosed
      unfold pump
      rw [hnext]
      exact outcome_raises (by simp [handsOut, hq, hclosed, handsOutEvents, handsOutNet])
    · exact pump_ready hP .fails hdone hneeds
  | chunk chunk rest ih =>
    by_cases hneeds : queue c.parser = [] ∧ closed c.parser = false
    · obtain ⟨hq, hclosed⟩ := hneeds
      obtain ⟨p', hnext, hq', hclosed', hdone'⟩ := hP.needData c.parser hdone hq hclosed
      obtain ⟨hqfed, hcfed, hdfed⟩ := hP.fed p' chunk hdone' hclosed'
      rw [hq', List.nil_append] at hqfed
      unfold pump
      rw [hnext]
      -- The fed parser hands out the same, and holds what has left the wire.
      have hout : handsOut max queue closed (c, .chunk chunk rest) =
          handsOut max queue closed
            ({ c with parser := P.receiveData p' (some chunk) }, rest) := by
        simp [handsOut, hq, hclosed, hqfed, hcfed, handsOutEvents, handsOutNet]
      have hleft : left queue ({ c with parser := P.receiveData p' (some chunk) }, rest) =
          left queue (c, .chunk chunk rest) := by
        simp [left, hq, hqfed, sum_chunkEvents, Net.size]
      obtain ⟨hended, hgot, hstopped⟩ :=
        ih (c := { c with parser := P.receiveData p' (some chunk) }) hdfed
      rw [hleft, hout.symm] at hgot
      rw [hout.symm] at hended hstopped
      exact ⟨hended, hgot, hstopped⟩
    · exact pump_ready hP _ hdone hneeds

end Reader

/-- The backend as a transport. -/
def transport (hP : P.Documented queue closed) (max : Nat) : Transport (Reader π × Net) where
  receive _ s := s.1.receive P max s.2
  left := left queue
  decreases {size s s' chunk} _ h hne := by
    simp only [Reader.receive] at h
    split at h
    · cases h
      exact absurd rfl hne
    · rename_i hdone
      exact ((Reader.pump_outcome hP s.2 (by simpa using hdone)).got chunk s' h hne).2.1

/-- `read_body` in a handler: the parser holds the events of the chunk with the end of the head. -/
def readBody (hP : P.Documented queue closed) (max maxSize : Nat) (p : π) (net : Net) :
    Except Stop Bytes :=
  (transport hP max).readBody maxSize (⟨p, 0⟩, net)

end LocalPost.Http.H11
