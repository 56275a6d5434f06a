import LocalPost.Http.H11.NextEvent
import LocalPost.Http.H11.Pipelined

/-!
# `receive` on the parser of a connection

`receive` asks the parser for the events of one body, and the connection asks the same parser for
everything else. `Parser.inBody` is the parser of a connection as `receive` uses it, and a call that
returns is a run of the worker's turns on the connection (`receive_reads`).
-/

set_option autoImplicit false

namespace LocalPost.Http.H11.Pipelined

open LocalPost.Core

variable {π : Type}

/-- What ends a chunk, for the parser of a connection. -/
def markTokens : Mark → List Token
  | .more => []
  | .endOfMessage => [.endOfMessage]
  | .malformed => [.malformed]

/-- What the bytes of a chunk complete. -/
def chunkTokens (c : Chunk) : List Token := c.bytes.map Token.body ++ markTokens c.mark

/-- An event as `receive` tells them apart. It returns `b""` for data without bytes, as for the
end. -/
def Reply.inBody : Reply → H11.Reply
  | .needData => .needData
  | .data bytes => if h : bytes ≠ [] then .data ⟨bytes, h⟩ else .endOfMessage
  | .endOfMessage => .endOfMessage
  | .protocolError => .remoteProtocolError
  | .paused | .request _ | .connectionClosed => .other

/-- The parser of a connection, as `receive` uses it. -/
def Parser.inBody (P : Parser π) : H11.Parser π where
  receiveData p
    | some c => P.receiveData p (chunkTokens c)
    | none => P.receiveEof p
  nextEvent p := ((P.nextEvent p).1.inBody, (P.nextEvent p).2)
  theirDone p := P.theirState p = .done

theorem Reply.eq_needData {r : Reply} (h : r.inBody = .needData) : r = .needData := by
  cases r with
  | needData => rfl
  | data bytes =>
    rw [Reply.inBody] at h
    split at h
    · cases h
    · cases h
  | _ => cases h

/-- An event with which `receive` returns leaves the parser and the network as they are. -/
theorem onEvent_ok {max : Nat} {r r' : Reader π} {net net' : Net} {reply : H11.Reply}
    {bytes : Bytes}
    (h : r.onEvent max net reply = .ok (bytes, r', net')) : r'.parser = r.parser := by
  cases reply with
  | needData => cases h
  | data piece =>
    simp only [Reader.onEvent] at h
    split at h
    · cases h
    · cases h
      rfl
  | endOfMessage =>
    cases h
    rfl
  | remoteProtocolError => cases h
  | other => cases h

variable {P : Parser π} {max : Nat} {c : Conn π}

/-- A connection that a worker serves, with its parser at `p`. -/
structure Conn.ServedWith (c : Conn π) (p : π) : Prop where
  isOpen : c.isOpen = true
  stage : c.stage = .serving false
  parser : c.parser = p

section

variable {p p' : π} (h : c.ServedWith p) (hdone : P.theirState p ≠ .done)
include h hdone

/-- A turn that needs data takes what `recv` returns. -/
theorem step_read_needData (max : Nat) (hnext : P.nextEvent p = (.needData, p')) (recv : Recv) :
    c.step P max (.read recv) = some (c.feed P p' recv) := by
  rw [Conn.step, if_pos h.isOpen, Conn.read, if_pos h.stage, h.parser, if_neg hdone, hnext]

/-- A turn that is reported an event. -/
theorem step_read_event (max : Nat) {reply : Reply} (hnext : P.nextEvent p = (reply, p'))
    (hreply : reply ≠ .needData) (recv : Recv) : c.step P max (.read recv) =
    some { c with parser := p' } := by
  rw [Conn.step, if_pos h.isOpen, Conn.read, if_pos h.stage, h.parser, if_neg hdone, hnext]
  cases reply with
  | needData => exact absurd rfl hreply
  | _ => rfl

end

theorem Conn.ServedWith.event {p : π} (h : c.ServedWith p) (p' : π) :
    Conn.ServedWith { c with parser := p' } p' := ⟨h.isOpen, h.stage, rfl⟩

theorem nextEvent_inBody {p p' : π} {reply : Reply} (hnext : P.nextEvent p = (reply, p')) :
    P.inBody.nextEvent p = (reply.inBody, p') := by
  change ((P.nextEvent p).1.inBody, (P.nextEvent p).2) = _
  rw [hnext]

/-- The loop does not turn on an event, and the call ends with it. -/
theorem pump_of_event {r : Reader π} {net : Net} {reply : Reply} {p : π}
    (hnext : P.nextEvent r.parser = (reply, p)) (hreply : reply ≠ .needData) :
    r.pump P.inBody max net = Reader.onEvent max { r with parser := p } net reply.inBody := by
  have hview := nextEvent_inBody hnext
  have hne : reply.inBody ≠ .needData := fun heq => hreply (Reply.eq_needData heq)
  unfold Reader.pump
  rw [hview]
  split
  · rename_i heq
    exact absurd (congrArg Prod.fst heq) hne
  · rename_i heq
    cases heq
    rfl

/-- At the FIN the parser is told of it and asked once more. -/
theorem pump_of_fin {r : Reader π} {reply : Reply} {p p' : π}
    (hnext : P.nextEvent r.parser = (.needData, p))
    (hlast : P.nextEvent (P.receiveEof p) = (reply, p')) :
    r.pump P.inBody max .fin = Reader.onEvent max { r with parser := p' } .fin reply.inBody := by
  unfold Reader.pump
  rw [nextEvent_inBody hnext]
  exact congrArg (fun e : H11.Reply × π => Reader.onEvent max { r with parser := e.2 } .fin e.1)
    (nextEvent_inBody hlast)

/-- A call that ends with the event at hand is one turn. -/
theorem pump_reads_event (fresh : π) {r r' : Reader π} {net net' : Net} {bytes : Bytes}
    {reply : Reply} {p : π}
    (h : r.pump P.inBody max net = .ok (bytes, r', net')) (hc : c.ServedWith r.parser)
    (hdone : P.theirState r.parser ≠ .done) (hnext : P.nextEvent r.parser = (reply, p))
    (hreply : reply ≠ .needData) :
    ∃ (recvs : List Recv) (c' : Conn π),
      (system P max fresh).exec c (recvs.map .read) = some c' ∧ c'.ServedWith r'.parser := by
  rw [pump_of_event hnext hreply] at h
  have hparser : r'.parser = p := onEvent_ok h
  rw [hparser]
  have hstep := step_read_event hc hdone max hnext hreply .blocks
  exact ⟨[.blocks], _, (Lts.exec_cons _).2 ⟨_, hstep, rfl⟩, hc.event p⟩

section

variable {buffer : π → List Token} (hP : P.Documented buffer) (fresh : π)
include hP

/-- The loop of `receive` is a run of the worker's turns. -/
theorem pump_reads {r r' : Reader π} {net net' : Net} {bytes : Bytes}
    (h : r.pump P.inBody max net = .ok (bytes, r', net')) (hc : c.ServedWith r.parser)
    (hdone : P.theirState r.parser ≠ .done) :
    ∃ (recvs : List Recv) (c' : Conn π),
      (system P max fresh).exec c (recvs.map .read) = some c' ∧ c'.ServedWith r'.parser := by
  induction net generalizing r c with
  | fin =>
    cases hnext : P.nextEvent r.parser with
    | mk reply p =>
      by_cases hneeds : reply = .needData
      · subst hneeds
        have hwaits := (hP.needData _ _ hnext).2
        -- the parser is told of the FIN and asked again
        have hdone' : P.theirState (P.receiveEof p) ≠ .done := by
          rw [(hP.eof p).2.1, hwaits]
          exact hdone
        have hstep := step_read_needData hc hdone max hnext .eof
        have hc' : Conn.ServedWith (c.feed P p .eof) (P.receiveEof p) := hc.event _
        cases hnext' : P.nextEvent (P.receiveEof p) with
        | mk reply p' =>
          rw [pump_of_fin hnext hnext'] at h
          have hreply : reply ≠ .needData := by
            rintro rfl
            cases h
          have hparser : r'.parser = p' := onEvent_ok h
          rw [hparser]
          have hstep' := step_read_event hc' hdone' max hnext' hreply .blocks
          exact ⟨[.eof, .blocks], _,
            (Lts.exec_cons _).2 ⟨_, hstep, (Lts.exec_cons _).2 ⟨_, hstep', rfl⟩⟩, hc'.event p'⟩
      · exact pump_reads_event fresh h hc hdone hnext hneeds
  | fails =>
    cases hnext : P.nextEvent r.parser with
    | mk reply p =>
      by_cases hneeds : reply = .needData
      · subst hneeds
        unfold Reader.pump at h
        rw [nextEvent_inBody hnext] at h
        cases h
      · exact pump_reads_event fresh h hc hdone hnext hneeds
  | chunk chunk rest ih =>
    cases hnext : P.nextEvent r.parser with
    | mk reply p =>
      by_cases hneeds : reply = .needData
      · subst hneeds
        have hdone' : P.theirState (P.receiveData p (chunkTokens chunk)) ≠ .done := by
          rw [(hP.fed p _).2.1, (hP.needData _ _ hnext).2]
          exact hdone
        have hstep := step_read_needData hc hdone max hnext (.chunk (chunkTokens chunk))
        unfold Reader.pump at h
        rw [nextEvent_inBody hnext] at h
        have hc' : Conn.ServedWith (c.feed P p (.chunk (chunkTokens chunk)))
          (P.receiveData p (chunkTokens chunk)) := ⟨hc.isOpen, hc.stage, rfl⟩
        obtain ⟨recvs, c', hexec, hserved⟩ := ih h hc' hdone'
        exact ⟨.chunk (chunkTokens chunk) :: recvs, c',
          (Lts.exec_cons _).2 ⟨_, hstep, hexec⟩, hserved⟩
      · exact pump_reads_event fresh h hc hdone hnext hneeds

/-- On an open connection that a worker serves, a call of `receive` that returns is a run of the
turns of the connection's parser, whatever the network gives. -/
theorem receive_reads {r r' : Reader π} {net net' : Net} {bytes : Bytes}
    (h : r.receive P.inBody max net = .ok (bytes, r', net')) (hc : c.ServedWith r.parser) :
    ∃ (recvs : List Recv) (c' : Conn π),
      (system P max fresh).exec c (recvs.map .read) = some c' ∧ c'.ServedWith r'.parser := by
  rw [Reader.receive] at h
  by_cases hdone : P.theirState r.parser = .done
  · rw [if_pos (by exact decide_eq_true hdone)] at h
    cases h
    exact ⟨[], c, rfl, hc⟩
  · rw [if_neg (by exact fun heq => hdone (of_decide_eq_true heq))] at h
    exact pump_reads hP fresh h hc hdone

end

end LocalPost.Http.H11.Pipelined
