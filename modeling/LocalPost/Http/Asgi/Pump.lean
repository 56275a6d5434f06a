import LocalPost.Http.Body.Read

/-!
# Reading a body on ASGI

`_pump_channel` takes the events of the server and passes the body on through a stream without a
buffer; it closes the stream at the end of the message, on `http.disconnect`, and when it fails
itself. `receive` takes from the stream, and a closed stream is `b""`.

The flag that the pump sets on a disconnect is not read here, and the events after the end of the
message only set it.
-/

set_option autoImplicit false

namespace LocalPost.Http.Asgi

/-- What the server's `receive` returns, or that it raises. -/
inductive Event where
  | request (body : Bytes) (moreBody : Bool)
  | disconnect
  | other
  | raises
  deriving DecidableEq, Repr

/-- The sending end of the stream: the pump with the events to come, or closed. -/
inductive Pump where
  | running (events : List Event)
  | closed
  deriving DecidableEq, Repr

/-- What the stream gives to a receiver. -/
inductive Item where
  | chunk (body : Bytes) (rest : Pump)
  | endOfStream
  | waits
  deriving DecidableEq, Repr

/-- `_pump_channel` up to the next chunk it sends, or until it closes the stream. -/
def pumpChannel : List Event → Item
  | [] => .waits
  | .disconnect :: _ => .endOfStream
  | .raises :: _ => .endOfStream
  | .other :: events => pumpChannel events
  | .request body moreBody :: events =>
    if body ≠ [] then .chunk body (if moreBody then .running events else .closed)
    else if moreBody then pumpChannel events
    else .endOfStream

def Pump.next : Pump → Item
  | running events => pumpChannel events
  | closed => .endOfStream

/-- `_ASGIReqCtx`: the stream, and what `receive` keeps. -/
structure Ctx where
  bodyStream : Pump
  streamEof : Bool
  streamLeftover : Bytes
  deriving DecidableEq, Repr

/-- `receive(size)`. -/
def Ctx.receive (size : Nat) (c : Ctx) : Except Stop (Bytes × Ctx) :=
  if c.streamLeftover ≠ [] then
    if c.streamLeftover.length ≤ size then .ok (c.streamLeftover, { c with streamLeftover := [] })
    else .ok (c.streamLeftover.take size,
      { c with streamLeftover := c.streamLeftover.drop size })
  else if c.streamEof then .ok ([], c)
  else
    match c.bodyStream.next with
    | .waits => .error .waits
    | .endOfStream => .ok ([], { c with bodyStream := .closed, streamEof := true })
    | .chunk body rest =>
      if body.length ≤ size then .ok (body, { c with bodyStream := rest })
      else .ok (body.take size,
        { c with bodyStream := rest, streamLeftover := body.drop size })

/-- What arrives of the body. -/
def delivery : List Event → Delivery
  | [] => ⟨[], .pending⟩
  | .disconnect :: _ => ⟨[], .gone⟩
  | .raises :: _ => ⟨[], .failed⟩
  | .other :: events => delivery events
  | .request body moreBody :: events =>
    if moreBody then (delivery events).after body else ⟨body, .endOfMessage⟩

/-! ## What is handed out -/

/-- The bytes the pump passes on. -/
def handsOutEvents : List Event → Bytes × Last
  | [] => ([], .waits)
  | .disconnect :: _ => ([], .empty)
  | .raises :: _ => ([], .empty)
  | .other :: events => handsOutEvents events
  | .request body moreBody :: events =>
    if moreBody then (body ++ (handsOutEvents events).1, (handsOutEvents events).2)
    else (body, .empty)

def Pump.handsOut : Pump → Bytes × Last
  | running events => handsOutEvents events
  | closed => ([], .empty)

/-- What was left over comes first. -/
def Ctx.handsOut (c : Ctx) : Bytes × Last :=
  if c.streamEof then (c.streamLeftover, .empty)
  else (c.streamLeftover ++ c.bodyStream.handsOut.1, c.bodyStream.handsOut.2)

/-- The number of body bytes in events. -/
def bodySize : List Event → Nat
  | [] => 0
  | .request body _ :: events => body.length + bodySize events
  | _ :: events => bodySize events

def Pump.size : Pump → Nat
  | running events => bodySize events
  | closed => 0

def Ctx.left (c : Ctx) : Nat := c.streamLeftover.length + c.bodyStream.size

/-- The pump sends the next bytes that it hands out, and closes the stream when there are none. -/
theorem pumpChannel_spec (events : List Event) :
    match pumpChannel events with
    | .chunk body rest => body ≠ [] ∧ body.length + rest.size ≤ bodySize events ∧
        (handsOutEvents events).1 = body ++ rest.handsOut.1 ∧
        (handsOutEvents events).2 = rest.handsOut.2
    | .endOfStream => handsOutEvents events = ([], .empty)
    | .waits => handsOutEvents events = ([], .waits) := by
  fun_induction pumpChannel events with
  | case1 => rfl
  | case2 => rfl
  | case3 => rfl
  | case4 events ih => exact ih
  | case5 body moreBody events hbody =>
    cases moreBody with
    | true => exact ⟨hbody, Nat.le_refl _, by simp [handsOutEvents, Pump.handsOut]⟩
    | false => exact ⟨hbody, by simp [bodySize, Pump.size], by simp [handsOutEvents, Pump.handsOut]⟩
  | case6 body events hbody ih =>
    have hnil : body = [] := by simpa using hbody
    subst hnil
    simpa only [handsOutEvents, bodySize, if_true, List.nil_append, List.length_nil, Nat.zero_add]
      using ih
  | case7 body moreBody events hbody hmore =>
    have hnil : body = [] := by simpa using hbody
    simp [handsOutEvents, hnil, hmore]

theorem Pump.next_spec (p : Pump) :
    match p.next with
    | .chunk body rest => body ≠ [] ∧ body.length + rest.size ≤ p.size ∧
        p.handsOut.1 = body ++ rest.handsOut.1 ∧ p.handsOut.2 = rest.handsOut.2
    | .endOfStream => p.handsOut = ([], .empty)
    | .waits => p.handsOut = ([], .waits) := by
  cases p with
  | running events => exact pumpChannel_spec events
  | closed => rfl

/-- A call of `receive`: `b""` when nothing more is handed out, or the next bytes of what is, or no
return while nothing comes. -/
theorem Ctx.receive_cases {size : Nat} (hsize : 0 < size) (c : Ctx) :
    (∃ c', c.receive size = .ok ([], c') ∧ c.handsOut = ([], .empty)) ∨
    (∃ bytes c', c.receive size = .ok (bytes, c') ∧ bytes ≠ [] ∧ c'.left < c.left ∧
      c.handsOut.1 = bytes ++ c'.handsOut.1 ∧ c.handsOut.2 = c'.handsOut.2) ∨
    (c.receive size = .error .waits ∧ c.handsOut.2 = .waits) := by
  -- The first `size` bytes of a chunk that is not empty are not empty.
  have htake : ∀ bytes : Bytes, bytes ≠ [] → bytes.take size ≠ [] := by
    intro bytes hne
    simp only [ne_eq, List.take_eq_nil_iff, hne, or_false]
    omega
  unfold receive
  by_cases hleft : c.streamLeftover = []
  · rw [if_neg (by simp [hleft])]
    cases heof : c.streamEof with
    | true => exact .inl ⟨c, rfl, by simp [handsOut, heof, hleft]⟩
    | false =>
      rw [if_neg (by simp)]
      have hout : c.handsOut = c.bodyStream.handsOut := by simp [handsOut, heof, hleft]
      have hspec := c.bodyStream.next_spec
      cases hnext : c.bodyStream.next with
      | waits =>
        rw [hnext] at hspec
        exact .inr (.inr ⟨rfl, by rw [hout, hspec]⟩)
      | endOfStream =>
        rw [hnext] at hspec
        exact .inl ⟨_, rfl, hout.trans hspec⟩
      | chunk body rest =>
        rw [hnext] at hspec
        obtain ⟨hne, hsmaller, hbytes, hlast⟩ := hspec
        have hpos := List.length_pos_iff.2 hne
        simp only
        split
        · refine .inr (.inl ⟨body, _, rfl, hne, ?_, ?_, ?_⟩)
          · simp only [left]
            omega
          · simp [hbytes, handsOut, heof, hleft]
          · simp [hlast, handsOut, heof]
        · refine .inr (.inl ⟨body.take size, _, rfl, htake body hne, ?_, ?_, ?_⟩)
          · simp only [left, List.length_drop]
            omega
          · simp [hbytes, handsOut, heof, hleft, ← List.append_assoc]
          · simp [hlast, handsOut, heof]
  · rw [if_pos hleft]
    have hpos := List.length_pos_iff.2 hleft
    split
    · refine .inr (.inl ⟨c.streamLeftover, _, rfl, hleft, ?_, ?_, ?_⟩)
      · simp only [left, List.length_nil]
        omega
      · cases heof : c.streamEof <;> simp [handsOut, heof]
      · cases heof : c.streamEof <;> simp [handsOut, heof]
    · refine .inr (.inl ⟨c.streamLeftover.take size, _, rfl, htake _ hleft, ?_, ?_, ?_⟩)
      · simp only [left, List.length_drop]
        omega
      · cases heof : c.streamEof <;> simp [handsOut, heof, ← List.append_assoc]
      · cases heof : c.streamEof <;> simp [handsOut, heof]

/-- The bridge as a transport. -/
def transport : Transport Ctx where
  receive := Ctx.receive
  left := Ctx.left
  decreases {size s s' chunk} hsize h hne := by
    rcases s.receive_cases hsize with ⟨c', heq, -⟩ | ⟨bytes, c', heq, -, hlt, -⟩ | ⟨heq, -⟩
    · cases heq.symm.trans h
      exact absurd rfl hne
    · cases heq.symm.trans h
      exact hlt
    · cases heq.symm.trans h

variable {maxSize : Nat} {events : List Event}

end LocalPost.Http.Asgi
