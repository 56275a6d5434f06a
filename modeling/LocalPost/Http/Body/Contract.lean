import LocalPost.Http.H11.NextEvent
import LocalPost.Http.Httptools.Receive

/-!
# The contract of `receive(size)`

`receive(size)` is to return up to `size` bytes of the request body, and `b""` from the end of the
message on. `Contract` says this of the results of a sequence of calls against the body that was
sent.

httptools keeps what does not fit the size for the next call and meets the contract. h11 returns the
body events of its parser as they are, one for each call (`size` only bounds the `recv`), so what an
earlier `recv` has left in the parser can be larger than asked for. And it knows the end of the
message by `their_state` being `DONE`; after a request that does not keep the connection alive it is
`MUST_CLOSE`, and a call after the end raises. `receive_contract_iff` is the exact condition.
-/

set_option autoImplicit false

namespace LocalPost.Http

/-- The results of the calls of `receive` with these sizes, up to the first that does not return. -/
def reads {σ : Type} (receive : Nat → σ → Except Stop (Bytes × σ)) : List Nat → σ →
    List (Except Stop Bytes)
  | [], _ => []
  | size :: sizes, s =>
    match receive size s with
    | .error e => [.error e]
    | .ok (chunk, s') => .ok chunk :: reads receive sizes s'

/-- Every call returns the next bytes of the body, at most as many as it asked for, and some unless
the body is exhausted. -/
def Contract : Bytes → List Nat → List (Except Stop Bytes) → Prop
  | _, [], [] => True
  | body, size :: sizes, .ok chunk :: results =>
    chunk.length ≤ size ∧ (body ≠ [] → chunk ≠ []) ∧
      ∃ rest, body = chunk ++ rest ∧ Contract rest sizes results
  | _, _, _ => False

namespace Contract

/-- After the end of the body every call returns `b""`. -/
theorem nil_iff {sizes : List Nat} {results : List (Except Stop Bytes)} :
    Contract [] sizes results ↔ results = List.replicate sizes.length (.ok []) := by
  induction sizes generalizing results with
  | nil => cases results <;> simp [Contract]
  | cons size sizes ih =>
    cases results with
    | nil => simp [Contract, List.replicate_succ]
    | cons result results =>
      cases result with
      | error e => simp [Contract, List.replicate_succ]
      | ok chunk =>
        simp only [Contract, List.length_cons, List.replicate_succ,
          List.cons.injEq, Except.ok.injEq]
        constructor
        · rintro ⟨-, -, rest, hrest, hc⟩
          obtain ⟨rfl, rfl⟩ := List.append_eq_nil_iff.1 hrest.symm
          exact ⟨rfl, ih.1 hc⟩
        · rintro ⟨rfl, rfl⟩
          exact ⟨Nat.zero_le _, fun h => h, [], rfl, ih.2 rfl⟩

/-- The chunks are the beginning of the body, and the whole of it once a call has returned `b""`. -/
theorem chunks {body : Bytes} {sizes : List Nat} {results : List (Except Stop Bytes)}
    (h : Contract body sizes results) : ∃ chunks : List Bytes, results = chunks.map .ok ∧
      chunks.flatten <+: body ∧ ([] ∈ chunks → chunks.flatten = body) := by
  induction sizes generalizing body results with
  | nil =>
    cases results with
    | nil => exact ⟨[], rfl, List.nil_prefix, fun hmem => (by cases hmem)⟩
    | cons result results => exact h.elim
  | cons size sizes ih =>
    cases results with
    | nil => exact h.elim
    | cons result results =>
      cases result with
      | error e => exact h.elim
      -- the chunk of this call, and what the rest of the body gives for the rest of the calls
      | ok chunk =>
        obtain ⟨-, hsome, rest, rfl, hrest⟩ := h
        obtain ⟨chunks, rfl, hprefix, hwhole⟩ := ih hrest
        refine ⟨chunk :: chunks, rfl, ?_, fun hmem => ?_⟩
        · rw [List.flatten_cons]
          exact (List.prefix_append_right_inj chunk).2 hprefix
        · rw [List.flatten_cons]
          rcases List.mem_cons.1 hmem with hnil | hmem
          · -- an empty chunk before the end of the body is excluded
            have hbody : chunk ++ rest = [] := by
              by_contra hne
              exact hsome hne hnil.symm
            obtain ⟨hchunk, rfl⟩ := List.append_eq_nil_iff.1 hbody
            rw [List.prefix_nil.1 hprefix]
          · rw [hwhole hmem]

end Contract

/-- The data of the body events up to the end of the message. -/
def Net.pieces : Net → List Piece
  | .fin => []
  | .fails => []
  | .chunk c rest => if c.mark = .more then c.pieces ++ rest.pieces else c.pieces

/-- The body of a complete message consists of its events. -/
theorem Net.flatten_pieces {net : Net} (h : net.delivery.ending = .endOfMessage) :
    (net.pieces.map Subtype.val).flatten = net.delivery.body := by
  induction net with
  | fin => cases h
  | fails => cases h
  | chunk c rest ih =>
    cases hm : c.mark with
    | more =>
      have hrest : rest.delivery.ending = .endOfMessage := by
        simpa [Net.delivery, hm, Delivery.after] using h
      rw [Net.pieces, if_pos hm, List.map_append, List.flatten_append, ih hrest]
      simp only [Net.delivery, hm, Delivery.after]
      rfl
    | endOfMessage => simp [Net.pieces, Net.delivery, hm, Chunk.bytes, Chunk.datas]
    | malformed => simp [Net.delivery, hm] at h

/-- No chunk of a complete body is larger than the body. -/
theorem Net.fits_of_body {max : Nat} {net : Net} (h : net.delivery.ending = .endOfMessage)
    (hmax : net.delivery.body.length ≤ max) : net.Fits max := by
  induction net with
  | fin => trivial
  | fails => trivial
  | chunk c rest ih =>
    cases hm : c.mark with
    | more =>
      simp only [Net.delivery, hm, Delivery.after, List.length_append] at h hmax
      exact ⟨by omega, fun _ => ih h (by omega)⟩
    | endOfMessage =>
      simp only [Net.delivery, hm] at hmax
      exact ⟨hmax, fun h => by cases hm.symm.trans h⟩
    | malformed => simp [Net.delivery, hm] at h

/-! ## h11 -/

namespace H11

variable {π : Type} {P : Parser π} {inBody ended lasting : π → Bool} {queue : π → List Event}
  {closed : π → Bool}

/-- The parser inside the body of a request and after its end. Inside (`inBody`) it reports the
events it has been fed one after the other. Afterwards (`ended`), when the request keeps the
connection alive and proposes no protocol switch (`lasting`), `their_state` is `DONE`. Otherwise it
is `MUST_CLOSE` or `MIGHT_SWITCH_PROTOCOL`, and no body event is reported any more: the parser needs
data, pauses, or raises. -/
structure Parser.Described (P : Parser π) (inBody ended lasting : π → Bool) (queue : π → List Event)
    (closed : π → Bool) : Prop where
  notDone : ∀ p, inBody p = true → P.theirDone p = false
  fed : ∀ p c, inBody p = true → closed p = false →
    queue (P.receiveData p (some c)) = queue p ++ chunkEvents c ∧
    closed (P.receiveData p (some c)) = false ∧ inBody (P.receiveData p (some c)) = true ∧
    lasting (P.receiveData p (some c)) = lasting p
  data : ∀ p piece es, inBody p = true → queue p = .data piece :: es →
    ∃ p', P.nextEvent p = (.data piece, p') ∧ queue p' = es ∧ closed p' = closed p ∧
      inBody p' = true ∧ lasting p' = lasting p
  needData : ∀ p, inBody p = true → queue p = [] → closed p = false →
    ∃ p', P.nextEvent p = (.needData, p') ∧ queue p' = [] ∧ closed p' = false ∧
      inBody p' = true ∧ lasting p' = lasting p
  endOfMessage : ∀ p es, inBody p = true → queue p = .endOfMessage :: es →
    ∃ p', P.nextEvent p = (.endOfMessage, p') ∧ ended p' = true ∧ P.theirDone p' = lasting p
  endedFed : ∀ p c, ended p = true → P.theirDone p = false →
    ended (P.receiveData p c) = true ∧ P.theirDone (P.receiveData p c) = false
  endedNext : ∀ p, ended p = true → P.theirDone p = false →
    ((P.nextEvent p).1 = .needData ∨ (P.nextEvent p).1 = .other ∨
      (P.nextEvent p).1 = .remoteProtocolError) ∧
    ended (P.nextEvent p).2 = true ∧ P.theirDone (P.nextEvent p).2 = false

/-- The parser holds what follows of a body that is complete and within the limit. -/
structure Holds (inBody : π → Bool) (queue : π → List Event) (closed : π → Bool) (max : Nat)
    (c : Reader π) (net : Net) (first : Chunk) : Prop where
  inBody : inBody c.parser = true
  opened : closed c.parser = false
  events : queue c.parser = chunkEvents first
  complete : (Net.chunk first net).delivery.ending = .endOfMessage
  fits : c.bodyBytesReceived + (Net.chunk first net).delivery.body.length ≤ max

variable {max : Nat} {c : Reader π} {net : Net} {first : Chunk}

/-- The parser holds an event with data: it is the result. -/
theorem Holds.data (hP : P.Described inBody ended lasting queue closed) {piece : Piece}
    {pieces : List Piece}
    {mark : Mark} (h : Holds inBody queue closed max c net ⟨piece :: pieces, mark⟩) :
    ∃ p, lasting p = lasting c.parser ∧
      c.receive P max net =
        .ok (piece.val, ⟨p, c.bodyBytesReceived + piece.val.length⟩, net) ∧
      Holds inBody queue closed max ⟨p, c.bodyBytesReceived + piece.val.length⟩
        net ⟨pieces, mark⟩ := by
  have hq : queue c.parser = .data piece :: chunkEvents ⟨pieces, mark⟩ := h.events
  obtain ⟨p, hnext, hqueue, hclosed, hin, hlast⟩ := hP.data c.parser piece _ h.inBody hq
  -- The limit is kept by the whole body, so also by this event.
  have hbody : (Net.chunk ⟨piece :: pieces, mark⟩ net).delivery.body =
      piece.val ++ (Net.chunk ⟨pieces, mark⟩ net).delivery.body := by
    cases mark <;> simp [Net.delivery, Delivery.after, Chunk.bytes, Chunk.datas]
  have hending : (Net.chunk ⟨pieces, mark⟩ net).delivery.ending = .endOfMessage := by
    have hcomplete := h.complete
    cases mark with
    | more => exact hcomplete
    | endOfMessage => rfl
    | malformed => cases hcomplete
  have hfits := h.fits
  rw [hbody, List.length_append, ← Nat.add_assoc] at hfits
  refine ⟨p, hlast, ?_, hin, hclosed.trans h.opened, hqueue, hending, hfits⟩
  rw [Reader.receive, hP.notDone _ h.inBody, if_neg (by simp), Reader.pump.eq_def]
  simp only [hnext, Reader.onEvent]
  rw [if_neg (by omega)]

/-- The parser holds the end of the message. -/
theorem Holds.endOfMessage (hP : P.Described inBody ended lasting queue closed)
    (h : Holds inBody queue closed max c net ⟨[], .endOfMessage⟩) :
    ∃ p, c.receive P max net = .ok ([], { c with parser := p }, net) ∧ ended p = true ∧
      P.theirDone p = lasting c.parser := by
  obtain ⟨p, hnext, hended, hdone⟩ := hP.endOfMessage c.parser [] h.inBody h.events
  refine ⟨p, ?_, hended, hdone⟩
  rw [Reader.receive, hP.notDone _ h.inBody, if_neg (by simp), Reader.pump.eq_def]
  simp only [hnext, Reader.onEvent]

/-- The parser needs data, and is fed the next chunk. -/
theorem Holds.feed (hP : P.Described inBody ended lasting queue closed) {next : Chunk}
    {rest : Net} (h : Holds inBody queue closed max c (.chunk next rest) ⟨[], .more⟩) :
    ∃ p, c.receive P max (.chunk next rest) = Reader.receive P max rest { c with parser := p } ∧
      lasting p = lasting c.parser ∧ Holds inBody queue closed max
        { c with parser := p } rest next := by
  obtain ⟨p, hnext, hqueue, hclosed, hin, hlast⟩ :=
    hP.needData c.parser h.inBody h.events h.opened
  obtain ⟨hfed, hclosed', hin', hlast'⟩ := hP.fed p next hin hclosed
  refine ⟨P.receiveData p (some next), ?_, hlast'.trans hlast, hin', hclosed', ?_, h.complete, ?_⟩
  · rw [Reader.receive, hP.notDone _ h.inBody, if_neg (by simp), Reader.pump.eq_def, Reader.receive,
      hP.notDone _ hin', if_neg (by simp)]
    simp only [hnext]
  · rw [hfed, hqueue, List.nil_append]
  · have hfits := h.fits
    simpa [Net.delivery, Delivery.after, Chunk.bytes, Chunk.datas] using hfits

/-- What a call does: it returns the next body event, or `b""` when there is none. -/
def Returns (P : Parser π) (inBody ended lasting : π → Bool) (queue : π → List Event)
    (closed : π → Bool) (max : Nat) (c : Reader π) (net : Net) (pieces : List Piece) : Prop :=
  (∃ piece rest c' net' first', pieces = piece :: rest ∧
    c.receive P max net = .ok (piece.val, c', net') ∧ Holds inBody queue closed max c' net' first' ∧
    (Net.chunk first' net').pieces = rest ∧ lasting c'.parser = lasting c.parser) ∨
  (pieces = [] ∧ ∃ c' net', c.receive P max net = .ok ([], c', net') ∧
    ended c'.parser = true ∧ P.theirDone c'.parser = lasting c.parser)

/-- The parser holds an event: the call returns without a `recv`. -/
theorem Holds.ready (hP : P.Described inBody ended lasting queue closed)
    (h : Holds inBody queue closed max c net first)
    (hready : ¬(first.pieces = [] ∧ first.mark = .more)) :
    Returns P inBody ended lasting queue closed max c net (Net.chunk first net).pieces := by
  obtain ⟨pieces, mark⟩ := first
  cases pieces with
  | cons piece pieces =>
    obtain ⟨p, hlast, hreceive, hholds⟩ := h.data hP
    refine .inl ⟨piece, (Net.chunk ⟨pieces, mark⟩ net).pieces, _, net, ⟨pieces, mark⟩, ?_, hreceive,
      hholds, rfl, hlast⟩
    cases mark <;> rfl
  | nil =>
    cases mark with
    | more => exact absurd ⟨rfl, rfl⟩ hready
    | malformed => cases h.complete
    | endOfMessage =>
      obtain ⟨p, hreceive, hended, hdone⟩ := h.endOfMessage hP
      exact .inr ⟨rfl, _, _, hreceive, hended, hdone⟩

/-- A call inside a complete body. -/
theorem Holds.receive (hP : P.Described inBody ended lasting queue closed)
    (h : Holds inBody queue closed max c net first) :
    Returns P inBody ended lasting queue closed max c net (Net.chunk first net).pieces := by
  induction net generalizing c first with
  | fin =>
    refine h.ready hP fun hneeds => ?_
    have hcomplete := h.complete
    simp [Net.delivery, hneeds.2, Delivery.after] at hcomplete
  | fails =>
    refine h.ready hP fun hneeds => ?_
    have hcomplete := h.complete
    simp [Net.delivery, hneeds.2, Delivery.after] at hcomplete
  | chunk next rest ih =>
    by_cases hneeds : first.pieces = [] ∧ first.mark = .more
    · -- nothing is left of the last chunk
      obtain ⟨pieces, mark⟩ := first
      obtain ⟨rfl, rfl⟩ := hneeds
      obtain ⟨p, hreceive, hlast, hholds⟩ := h.feed hP
      have hnext := ih hholds
      unfold Returns at hnext ⊢
      rw [hreceive]
      simp only [hlast] at hnext
      exact hnext
    · exact h.ready hP hneeds

/-- After the end of a message that leaves `their_state` other than `DONE` a call does not
return. -/
theorem receive_ended (hP : P.Described inBody ended lasting queue closed)
    (hended : ended c.parser = true)
    (hdone : P.theirDone c.parser = false) : ∃ e, c.receive P max net = .error e := by
  -- each of these replies ends the call with an error
  have hevent : ∀ (net : Net) (c : Reader π) (reply : Reply),
      (reply = .needData ∨ reply = .other ∨ reply = .remoteProtocolError) →
        ∃ e, c.onEvent max net reply = .error e := by
    rintro net c reply (rfl | rfl | rfl)
    · exact ⟨_, rfl⟩
    · exact ⟨_, rfl⟩
    · exact ⟨_, rfl⟩
  rw [Reader.receive, hdone, if_neg (by simp)]
  -- the parser stays past the end, whatever the net still brings
  induction net generalizing c with
  | fin =>
    obtain ⟨hreply, hended', hdone'⟩ := hP.endedNext c.parser hended hdone
    obtain ⟨hfed, hfed'⟩ := hP.endedFed _ none hended' hdone'
    have hlast := (hP.endedNext _ hfed hfed').1
    obtain ⟨reply, p, hnext⟩ : ∃ reply p, P.nextEvent c.parser = (reply, p) := ⟨_, _, rfl⟩
    rw [hnext] at hreply hlast
    unfold Reader.pump
    rcases hreply with rfl | rfl | rfl
    · simp only [hnext]
      exact hevent _ _ _ hlast
    · simp only [hnext, Reader.onEvent]
      exact ⟨_, rfl⟩
    · simp only [hnext, Reader.onEvent]
      exact ⟨_, rfl⟩
  | fails =>
    obtain ⟨hreply, -⟩ := hP.endedNext c.parser hended hdone
    obtain ⟨reply, p, hnext⟩ : ∃ reply p, P.nextEvent c.parser = (reply, p) := ⟨_, _, rfl⟩
    rw [hnext] at hreply
    unfold Reader.pump
    rcases hreply with rfl | rfl | rfl
    · simp only [hnext]
      exact ⟨_, rfl⟩
    · simp only [hnext, Reader.onEvent]
      exact ⟨_, rfl⟩
    · simp only [hnext, Reader.onEvent]
      exact ⟨_, rfl⟩
  | chunk next rest ih =>
    obtain ⟨hreply, hended', hdone'⟩ := hP.endedNext c.parser hended hdone
    obtain ⟨reply, p, hnext⟩ : ∃ reply p, P.nextEvent c.parser = (reply, p) := ⟨_, _, rfl⟩
    rw [hnext] at hreply hended' hdone'
    unfold Reader.pump
    rcases hreply with rfl | rfl | rfl
    · -- whatever arrives is not part of a message
      obtain ⟨hfed, hfed'⟩ := hP.endedFed p (some next) hended' hdone'
      simp only [hnext]
      exact ih hfed hfed'
    · simp only [hnext, Reader.onEvent]
      exact ⟨_, rfl⟩
    · simp only [hnext, Reader.onEvent]
      exact ⟨_, rfl⟩

/-- The calls after the end of a message. -/
theorem contract_ended (hP : P.Described inBody ended lasting queue closed)
    (hended : ended c.parser = true) (sizes : List Nat) :
    Contract [] sizes (reads (fun _ s => Reader.receive P max s.2 s.1) sizes (c, net)) ↔
      P.theirDone c.parser = true ∨ sizes = [] := by
  rw [Contract.nil_iff]
  cases hdone : P.theirDone c.parser with
  | true =>
    refine iff_of_true ?_ (.inl rfl)
    induction sizes with
    | nil => rfl
    | cons size sizes ih =>
      rw [reads, Reader.receive, if_pos hdone]
      simp only [ih, List.length_cons, List.replicate_succ]
  | false =>
    cases sizes with
    | nil => simp [reads]
    | cons size sizes =>
      have hraises : ∃ e, c.receive P max net = .error e := receive_ended hP hended hdone
      obtain ⟨e, he⟩ := hraises
      rw [reads, he]
      simp [List.replicate_succ]

/-- The condition of h11: no body event that a call comes to report is larger than it asked for, and
`lasting`, or no more than one call after the body. -/
def Fits (pieces : List Piece) (lasting : Bool) (sizes : List Nat) : Prop :=
  (∀ (k size : Nat) (piece : Piece), sizes[k]? = some size → pieces[k]? = some piece →
    piece.val.length ≤ size) ∧ (lasting = true ∨ sizes.length ≤ pieces.length + 1)

/-- Pieces fit the calls one by one. -/
theorem fits_cons {piece : Piece} {pieces : List Piece} {b : Bool} {size : Nat} {sizes : List Nat} :
    Fits (piece :: pieces) b (size :: sizes) ↔
      piece.val.length ≤ size ∧ Fits pieces b sizes := by
  constructor
  · rintro ⟨hall, hlen⟩
    refine ⟨hall 0 size piece rfl rfl, fun k size' piece' hk hk' => hall (k + 1) size' piece'
      hk hk', hlen.imp_right fun h => ?_⟩
    simpa using h
  · rintro ⟨hhead, hall, hlen⟩
    refine ⟨fun k size' piece' hk hk' => ?_, hlen.imp_right fun h => ?_⟩
    · cases k with
      | zero =>
        cases hk
        cases hk'
        exact hhead
      | succ k => exact hall k size' piece' hk hk'
    · simpa using h

theorem fits_nil {b : Bool} {size : Nat} {sizes : List Nat} :
    Fits [] b (size :: sizes) ↔ b = true ∨ sizes = [] := by
  constructor
  · rintro ⟨-, hlen⟩
    exact hlen.imp_right fun h => List.length_eq_zero_iff.1 (by simpa using h)
  · intro h
    refine ⟨fun k size' piece hk hk' => (by cases hk'), h.imp_right fun h => ?_⟩
    simp [h]

/-- h11 meets the contract exactly under its condition. -/
theorem Holds.contract_iff (hP : P.Described inBody ended lasting queue closed)
    (h : Holds inBody queue closed max c net first) (sizes : List Nat) :
    Contract (Net.chunk first net).delivery.body sizes
        (reads (fun _ s => Reader.receive P max s.2 s.1) sizes (c, net)) ↔
      Fits (Net.chunk first net).pieces (lasting c.parser) sizes := by
  rw [← Net.flatten_pieces h.complete]
  generalize hpieces : (Net.chunk first net).pieces = pieces
  induction sizes generalizing pieces c net first with
  | nil =>
    refine iff_of_true trivial ⟨fun k size piece hk => (by cases hk), .inr (Nat.zero_le _)⟩
  | cons size sizes ih =>
    have hreturns := h.receive hP
    rw [hpieces] at hreturns
    -- the described parser returns the next piece, or ends the message
    rcases hreturns with ⟨piece, rest, c', net', first', rfl, hreceive, hholds, hrest, hlast⟩ |
      ⟨rfl, c', net', hreceive, hended, hdone⟩
    · -- a piece is returned, and the next calls read what is behind it
      rw [reads, hreceive, fits_cons, ← hlast, ← ih hholds rest hrest]
      simp only [Contract, List.map_cons, List.flatten_cons]
      constructor
      · rintro ⟨hlen, -, rest', heq, hc⟩
        rw [List.append_cancel_left_eq] at heq
        exact ⟨hlen, heq ▸ hc⟩
      · rintro ⟨hlen, hc⟩
        exact ⟨hlen, fun _ => piece.property, _, rfl, hc⟩
    · -- the message has ended with this call
      rw [reads, hreceive, fits_nil, ← hdone, ← contract_ended hP hended]
      simp only [Contract, List.map_nil, List.flatten_nil]
      constructor
      · rintro ⟨-, -, rest', heq, hc⟩
        rw [← List.nil_append rest', ← heq] at hc
        exact hc
      · intro hc
        exact ⟨Nat.zero_le _, fun hne => absurd rfl hne, [], rfl, hc⟩

end H11

/-! ## httptools -/

namespace Httptools.Conn

variable {max size : Nat} {c c' : Conn} {net net' : Net} {bytes : Bytes}

/-- No more bytes than asked for. -/
theorem receive_length (h : c.receive max size net = .ok (bytes, c', net')) :
    bytes.length ≤ size := by
  -- what is handed out of the buffer is cut at `size`
  have htake : ∀ (c : Conn) (net : Net), .ok ((c.takeBody size).1, (c.takeBody size).2, net) =
      (.ok (bytes, c', net') : Except Stop (Bytes × Conn × Net)) → bytes.length ≤ size := by
    intro c net h
    unfold takeBody at h
    split at h
    · cases h
      exact Nat.zero_le _
    · cases h
      exact List.length_take_le _ _
  -- The induction is on what the network has still to bring.
  induction net generalizing c with
  | fin =>
    unfold receive at h
    split at h
    · cases h
      exact Nat.zero_le _
    · exact htake c .fin h
  | fails =>
    unfold receive at h
    split at h
    · cases h
    · exact htake c .fails h
  | chunk chunk rest ih =>
    unfold receive at h
    -- the buffer is empty: the chunk is fed, and the call goes round again
    split at h
    · simp only at h
      split at h
      · cases h
      · exact ih h
    · exact htake c _ h

/-- After `b""` nothing more is handed out. -/
theorem receive_nil (hsize : 0 < size) (hc : c.Reading)
    (h : c.receive max size net = .ok ([], c', net')) :
    c'.Reading ∧ handsOut max (c', net') = ([], .empty) := by
  -- nothing is taken from the buffer only when it is empty and the message complete
  have htake : ∀ (c : Conn) (net : Net), c.Reading → ¬(c.bodyBuf = [] ∧ c.bodyEom = false) →
      .ok ((c.takeBody size).1, (c.takeBody size).2, net) =
        (.ok ([], c', net') : Except Stop (Bytes × Conn × Net)) →
      c'.Reading ∧ handsOut max (c', net') = ([], .empty) := by
    intro c net hc hready h
    unfold takeBody at h
    split at h
    · rename_i hbuf
      cases h
      have heom : c.bodyEom = true := by simpa [hbuf] using hready
      exact ⟨hc, by simp [handsOut, heom, hbuf]⟩
    · rename_i hbuf
      simp only [Except.ok.injEq, Prod.mk.injEq, List.take_eq_nil_iff, hbuf, or_false] at h
      omega
  induction net generalizing c with
  | fin =>
    unfold receive at h
    split at h
    · rename_i hneeds
      cases h
      exact ⟨hc, by simp [handsOut, handsOutNet, hneeds]⟩
    · rename_i hready
      exact htake c .fin hc hready h
  | fails =>
    unfold receive at h
    split at h
    · cases h
    · rename_i hready
      exact htake c .fails hc hready h
  | chunk chunk rest ih =>
    unfold receive at h
    split at h
    · rename_i hneeds
      rcases feedBody_cases max hc hneeds.1 chunk with ⟨-, e, hfeed⟩ | ⟨-, -, d, hfeed, hd, -⟩
      · simp only [hfeed] at h
        cases h
      · simp only [hfeed] at h
        exact ih hd h
    · rename_i hready
      exact htake c _ hc hready h

/-- httptools meets the contract. -/
theorem contract {body : Bytes} (hc : c.Reading) (hout : handsOut max (c, net) = (body, .empty))
    {sizes : List Nat} (hsizes : ∀ size ∈ sizes, 0 < size) :
    Contract body sizes (reads (fun size s => receive max size s.2 s.1) sizes (c, net)) := by
  induction sizes generalizing c net body with
  | nil => trivial
  | cons size sizes ih =>
    have hsize := hsizes size List.mem_cons_self
    have hrest := fun n hn => hsizes n (List.mem_cons_of_mem size hn)
    rcases receive_cases net hsize hc with
      ⟨d, net', hreceive, hempty⟩ | ⟨bytes, d, net', hreceive, hne, hd, hbytes, hlast⟩ |
        ⟨e, -, hraises⟩
    · rw [hout] at hempty
      cases hempty
      obtain ⟨hd, hout'⟩ := receive_nil hsize hc hreceive
      rw [reads, hreceive]
      exact ⟨Nat.zero_le _, fun h => absurd rfl h, [], rfl, ih hd hout' hrest⟩
    · rw [hout] at hbytes hlast
      have hlen := receive_length hreceive
      rw [reads, hreceive]
      exact ⟨hlen, fun _ => hne, _, hbytes, ih hd (Prod.ext rfl hlast.symm) hrest⟩
    · rw [hout] at hraises
      cases hraises

end Httptools.Conn

/-! ## Both backends -/

/-- The body of a request that has been sent completely, within `max_body_size`, read by any calls
of `receive`. After the dispatch of a streaming handler httptools meets the contract. h11 meets it
exactly when each body event fits the size of the call that reports it, and, for a request that does
not keep the connection alive or proposes a protocol switch, only one call comes after the body. -/
theorem receive_contract_iff {π : Type} {P : H11.Parser π} {inBody ended lasting : π → Bool}
    {queue : π → List H11.Event} {closed : π → Bool}
    (hP : P.Described inBody ended lasting queue closed) {p : π} {first : Chunk} (net : Net)
    (max : Nat)
    (hbody : inBody p = true) (hqueue : queue p = H11.chunkEvents first) (hopen : closed p = false)
    (hsent : (Net.chunk first net).delivery.ending = .endOfMessage)
    (hmax : (Net.chunk first net).delivery.body.length ≤ max) (sizes : List Nat)
    (hsizes : ∀ size ∈ sizes, 0 < size) :
    (Contract (Net.chunk first net).delivery.body sizes
        (reads (fun _ s => H11.Reader.receive P max s.2 s.1) sizes (⟨p, 0⟩, net)) ↔
      H11.Fits (Net.chunk first net).pieces (lasting p) sizes) ∧
    ∃ c, Httptools.Conn.dispatch max first = .ok c ∧
      Contract (Net.chunk first net).delivery.body sizes
        (reads (fun size s => Httptools.Conn.receive max size s.2 s.1) sizes (c, net)) := by
  constructor
  · have hholds : H11.Holds inBody queue closed max ⟨p, 0⟩ net first :=
      ⟨hbody, hopen, hqueue, hsent, by simpa using hmax⟩
    exact hholds.contract_iff hP sizes
  · have hfits : (Net.chunk first net).Fits max := Net.fits_of_body hsent hmax
    have hempty : (Httptools.Conn.handsOutNet max (.chunk first net)).2 = .empty :=
      -- httptools hands out the whole body and then its end, whatever the sizes
      (Httptools.Conn.handsOutNet_empty_iff _ _).2 ⟨hfits, .inl hsent⟩
    have hout := Httptools.Conn.handsOutNet_body _ _ hempty
    rcases Httptools.Conn.dispatch_cases max first net with ⟨hm | hlen, -⟩ | ⟨c, hd, hc, hc'⟩
    · simp [Net.delivery, hm] at hsent
    · exact absurd hfits.1 (Nat.not_le.2 hlen)
    · refine ⟨c, hd, Httptools.Conn.contract hc ?_ hsizes⟩
      rw [hc']
      exact Prod.ext hout hempty

/-- A parser that keeps the events it has been fed, whether it is closed, and whether the message
has ended; with `lasting` it is done then, without it waits for the FIN. -/
def messageParser (lasting : Bool) : H11.Parser (List H11.Event × Bool × Bool) where
  receiveData p chunk :=
    match chunk with
    | some c => (p.1 ++ H11.chunkEvents c, p.2)
    | none => (p.1, true, p.2.2)
  nextEvent p :=
    match p with
    | (es, true, true) => (.other, es, true, true)
    | ([], false, true) => (.needData, [], false, true)
    | (e :: es, false, true) => (.remoteProtocolError, e :: es, false, true)
    | (.data piece :: es, closed, false) => (.data piece, es, closed, false)
    | (.endOfMessage :: es, closed, false) => (.endOfMessage, es, closed, true)
    | (.malformed :: es, closed, false) => (.remoteProtocolError, es, closed, false)
    | ([], true, false) => (.remoteProtocolError, [], true, false)
    | ([], false, false) => (.needData, [], false, false)
  theirDone p := lasting && p.2.2

/-- The parser of one message behaves as described. -/
theorem messageParser_described (lasting : Bool) : (messageParser lasting).Described
    (fun p => !p.2.2) (fun p => p.2.2) (fun _ => lasting) (fun p => p.1) (fun p => p.2.1) where
  notDone p hin := by simp_all [messageParser]
  fed p c hin hopen := ⟨rfl, hopen, hin, rfl⟩
  data p piece es hin hq := by
    obtain ⟨queue, closed, ended⟩ := p
    cases ended with
    | true => cases hin
    -- the events of the queue come one by one, before anything of the closing
    | false =>
      cases hq
      cases closed <;> exact ⟨_, rfl, rfl, rfl, rfl, rfl⟩
  needData p hin hq hopen := by
    obtain ⟨queue, closed, ended⟩ := p
    cases ended with
    | true => cases hin
    | false =>
      cases hq
      cases hopen
      exact ⟨_, rfl, rfl, rfl, rfl, rfl⟩
  endOfMessage p es hin hq := by
    obtain ⟨queue, closed, ended⟩ := p
    cases ended with
    | true => cases hin
    | false =>
      cases hq
      cases closed <;> exact ⟨_, rfl, rfl, Bool.and_true lasting⟩
  endedFed p c hended hdone := by
    cases c <;> exact ⟨hended, hdone⟩
  -- behind the end of the message it has nothing more, or pauses on the next one
  endedNext p hended hdone := by
    obtain ⟨queue, closed, ended⟩ := p
    cases hended
    cases closed with
    | true => exact ⟨.inr (.inl rfl), rfl, hdone⟩
    | false =>
      cases queue with
      | nil => exact ⟨.inl rfl, rfl, hdone⟩
      | cons e es => exact ⟨.inr (.inr rfl), rfl, hdone⟩

/-- Three bytes of a body of four in the chunk of the head. -/
def threeBytes : Chunk := ⟨[⟨[1, 2, 3], by decide⟩], .more⟩

/-- The fourth byte, and the end of the message. -/
def fourthByte : Net := .chunk ⟨[⟨[4], by decide⟩], .endOfMessage⟩ .fin

/-- Calls that ask for enough, on a request that keeps the connection alive. -/
theorem receive_contract_iff_fourBytes :
    (Contract [1, 2, 3, 4] [3, 1, 1, 1]
        (reads (fun _ s => H11.Reader.receive (messageParser true) 10 s.2 s.1) [3, 1, 1, 1]
          (⟨(H11.chunkEvents threeBytes, false, false), 0⟩, fourthByte)) ↔
      H11.Fits (Net.chunk threeBytes fourthByte).pieces true [3, 1, 1, 1]) ∧
    ∃ c, Httptools.Conn.dispatch 10 threeBytes = .ok c ∧
      Contract [1, 2, 3, 4] [3, 1, 1, 1]
        (reads (fun size s => Httptools.Conn.receive 10 size s.2 s.1)
          [3, 1, 1, 1] (c, fourthByte)) :=
  receive_contract_iff (messageParser_described true)
    (p := (H11.chunkEvents threeBytes, false, false)) fourthByte 10 rfl rfl rfl rfl (by decide)
    [3, 1, 1, 1] (by decide)

/-- On h11 a call for one byte returns the three that came with the head; and after the body of a
request with `Connection: close` the second call raises. -/
theorem h11_breaks_contract :
    reads (fun _ s => H11.Reader.receive (messageParser true) 10 s.2 s.1) [1]
        (⟨(H11.chunkEvents threeBytes, false, false), 0⟩, fourthByte) = [.ok [1, 2, 3]] ∧
      ¬Contract [1, 2, 3, 4] [1] [.ok [1, 2, 3]] ∧
    reads (fun _ s => H11.Reader.receive (messageParser false) 10 s.2 s.1) [3, 1, 1, 1]
        (⟨(H11.chunkEvents threeBytes, false, false), 0⟩, fourthByte) =
      [.ok [1, 2, 3], .ok [4], .ok [], .error (.raises .runtimeError)] ∧
      ¬Contract [1, 2, 3, 4] [3, 1, 1, 1]
        [.ok [1, 2, 3], .ok [4], .ok [], .error (.raises .runtimeError)] := by
  refine ⟨rfl, fun h => absurd h.1 (by decide), rfl, fun h => ?_⟩
  obtain ⟨chunks, heq, -⟩ := h.chunks
  have hmem : Except.error (Stop.raises .runtimeError) ∈ chunks.map
      (.ok : Bytes → Except Stop Bytes) := by
    rw [← heq]
    simp
  simp at hmem

end LocalPost.Http
