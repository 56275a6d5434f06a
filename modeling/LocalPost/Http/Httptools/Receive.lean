import LocalPost.Http.Body.Net
import LocalPost.Http.Httptools.Conn

/-!
# Reading a body on httptools

`receive` on a borrowed connection: it returns what is buffered, else it feeds chunks to the parser
until something is, or the message is complete. On a FIN it returns `b""` like at the end of the
message.
-/

set_option autoImplicit false

namespace LocalPost.Http.Httptools

namespace Conn

/-- `_feed` of a chunk with body events. -/
def feedBody (max : Nat) (c : Conn) (chunk : Chunk) : Except Stop Conn :=
  let c := chunk.datas.foldl (onBody max) c
  match chunk.mark with
  | .malformed => .error (.raises .protocolError)
  | mark =>
    let c := if mark = .endOfMessage then c.onMessageComplete else c
    match c.bodyTooLarge with
    | some n => .error (.raises (.bodyTooLarge n))
    | none => .ok c

/-- The end of `receive`: up to `size` buffered bytes, or `b""`. -/
def takeBody (size : Nat) (c : Conn) : Bytes × Conn :=
  if c.bodyBuf = [] then ([], c)
  else (c.bodyBuf.take size, { c with bodyBuf := c.bodyBuf.drop size })

/-- `receive(size)` of the context that has borrowed the connection. -/
def receive (max size : Nat) : Net → Conn → Except Stop (Bytes × Conn × Net)
  | net, c =>
    if c.bodyBuf = [] ∧ c.bodyEom = false then
      match net with
      | .fin => .ok ([], c, .fin)
      | .fails => .error (.raises .osError)
      | .chunk chunk rest =>
        match c.feedBody max chunk with
        | .error e => .error e
        | .ok c => receive max size rest c
    else
      let (bytes, c) := c.takeBody size
      .ok (bytes, c, net)

/-- The selector thread has fed the chunk with the end of the head, and starts the worker. -/
def dispatch (max : Nat) (first : Chunk) : Except Stop Conn :=
  match feedBody max { Conn.start with ctx := some 0 } first with
  | .error e => .error e
  | .ok c => .ok { c with tracked := false }

/-! ## One feed -/

/-- Nothing was refused or dropped so far. -/
structure Reading (c : Conn) : Prop where
  oversize : c.cur.oversize = false
  drops : c.drops = false
  flag : c.bodyTooLarge = none

variable {max : Nat} {c c' : Conn}

theorem flag_foldl (datas : List Bytes) (h : c.bodyTooLarge.isSome = true) :
    (datas.foldl (onBody max) c).bodyTooLarge.isSome = true := by
  induction datas generalizing c with
  | nil => exact h
  | cons data datas ih => exact ih ((onBody_slots max c data).2.2.2.2.2.2.2 h)

/-- A piece that fits is buffered. -/
theorem onBody_fits (hover : c.cur.oversize = false) (hdrop : c.drops = false) {data : Bytes}
    (hle : c.bodyBuf.length + data.length ≤ max) :
    c.onBody max data = { c with bodyBuf := c.bodyBuf ++ data } := by
  rcases onBody_cases max c data with ⟨hno, -⟩ | ⟨-, -, hlen, -⟩ | ⟨-, -, -, heq⟩
  · rw [hover, hdrop] at hno
    simp at hno
  · omega
  · exact heq

/-- The pieces of a chunk that fits are buffered together. -/
theorem foldl_fits (datas : List Bytes) (hover : c.cur.oversize = false) (hdrop : c.drops = false)
    (hle : c.bodyBuf.length + (datas.flatten).length ≤ max) :
    datas.foldl (onBody max) c =
      { c with bodyBuf := c.bodyBuf ++ datas.flatten } := by
  induction datas generalizing c with
  | nil => simp
  | cons data datas ih =>
    rw [List.flatten_cons, List.length_append] at hle
    have hrest := ih (c := { c with bodyBuf := c.bodyBuf ++ data }) hover hdrop (by
      simp only [List.length_append]
      omega)
    rw [List.foldl_cons, onBody_fits hover hdrop (by omega), hrest, List.flatten_cons,
      List.append_assoc]

/-- One of the pieces of a chunk that does not fit sets the flag. -/
theorem foldl_exceeds (datas : List Bytes) (hover : c.cur.oversize = false)
    (hdrop : c.drops = false) (hbuf : c.bodyBuf.length ≤ max)
    (hlt : max < c.bodyBuf.length + (datas.flatten).length) :
    (datas.foldl (onBody max) c).bodyTooLarge.isSome = true := by
  induction datas generalizing c with
  | nil =>
    simp only [List.flatten_nil, List.length_nil] at hlt
    omega
  | cons data datas ih =>
    rw [List.flatten_cons, List.length_append] at hlt
    rw [List.foldl_cons]
    rcases onBody_cases max c data with ⟨hno, -⟩ | ⟨-, -, -, heq⟩ | ⟨-, -, hle, heq⟩
    · rw [hover, hdrop] at hno
      simp at hno
    · exact flag_foldl datas (by simp [heq])
    · rw [heq]
      refine ih hover hdrop ?_ ?_
      · simp only [List.length_append]
        omega
      · simp only [List.length_append]
        omega

/-- A feed into an empty buffer raises, or buffers all of the chunk. -/
theorem feedBody_cases (max : Nat) (h : c.Reading) (hbuf : c.bodyBuf = []) (chunk : Chunk) :
    ((chunk.mark = .malformed ∨ max < chunk.bytes.length) ∧
      ∃ e, c.feedBody max chunk = .error (.raises e)) ∨
    (chunk.mark ≠ .malformed ∧ chunk.bytes.length ≤ max ∧
      ∃ c', c.feedBody max chunk = .ok c' ∧ c'.Reading ∧ c'.bodyBuf = chunk.bytes ∧
        c'.bodyEom = (c.bodyEom || chunk.mark = .endOfMessage)) := by
  by_cases hlen : chunk.bytes.length ≤ max
  -- the pieces fit: the buffer holds them all, and the mark decides
  · have hfold : chunk.datas.foldl (onBody max) c = { c with bodyBuf := chunk.bytes } := by
      rw [foldl_fits chunk.datas h.oversize h.drops]
      · rw [hbuf, List.nil_append, Chunk.bytes]
      · rw [hbuf, List.length_nil, Nat.zero_add]
        exact hlen
    cases hm : chunk.mark with
    | malformed => exact .inl ⟨.inl rfl, .protocolError, by simp [feedBody, hm]⟩
    | more =>
      refine .inr ⟨by simp, hlen, { c with bodyBuf := chunk.bytes }, ?_,
        ⟨h.oversize, h.drops, h.flag⟩, rfl, by simp⟩
      simp [feedBody, hm, hfold, h.flag]
    | endOfMessage =>
      refine .inr ⟨by simp, hlen, onMessageComplete { c with bodyBuf := chunk.bytes }, ?_,
        ⟨h.oversize, h.drops, h.flag⟩, rfl, by simp [onMessageComplete]⟩
      simp [feedBody, hm, hfold, onMessageComplete, h.flag]
  -- one of them does not: the flag is set, and the feed raises
  · have hflag : (chunk.datas.foldl (onBody max) c).bodyTooLarge.isSome = true := by
      refine foldl_exceeds chunk.datas h.oversize h.drops (by simp [hbuf]) ?_
      rw [hbuf, List.length_nil, Nat.zero_add]
      exact Nat.lt_of_not_le hlen
    obtain ⟨n, hn⟩ := Option.isSome_iff_exists.1 hflag
    refine .inl ⟨.inr (by omega), ?_⟩
    cases hm : chunk.mark with
    | malformed => exact ⟨.protocolError, by simp [feedBody, hm]⟩
    | more => exact ⟨.bodyTooLarge n, by simp [feedBody, hm, hn]⟩
    | endOfMessage => exact ⟨.bodyTooLarge n, by simp [feedBody, hm, onMessageComplete, hn]⟩

/-- A feed buffers no more than the chunk. -/
theorem feedBody_length {chunk : Chunk} (h : c.feedBody max chunk = .ok c') :
    c'.bodyBuf.length ≤ c.bodyBuf.length + chunk.bytes.length := by
  -- each piece is appended or dropped
  have hfold : ∀ (datas : List Bytes) (c : Conn),
      (datas.foldl (onBody max) c).bodyBuf.length ≤ c.bodyBuf.length + datas.flatten.length := by
    intro datas
    induction datas with
    | nil => exact fun c => Nat.le_add_right _ _
    | cons data datas ih =>
      intro c
      have hone : (c.onBody max data).bodyBuf.length ≤ c.bodyBuf.length + data.length := by
        rcases onBody_cases max c data with
          ⟨-, heq⟩ | ⟨-, -, -, heq⟩ | ⟨-, -, -, heq⟩ <;> simp [heq]
      have hrest := ih (c.onBody max data)
      rw [List.flatten_cons, List.length_append, List.foldl_cons]
      omega
  unfold feedBody at h
  split at h
  · cases h
  · simp only at h
    split at h
    · cases h
    · cases h
      split
      · exact hfold chunk.datas c
      · exact hfold chunk.datas c

/-! ## What is handed out -/

/-- What `receive` gets from `recv`, and how it ends. -/
def handsOutNet (max : Nat) : Net → Bytes × Last
  | .fin => ([], .empty)
  | .fails => ([], .raises)
  | .chunk chunk rest =>
    if chunk.mark = .malformed ∨ max < chunk.bytes.length then ([], .raises)
    else if chunk.mark = .endOfMessage then (chunk.bytes, .empty)
    else (chunk.bytes ++ (handsOutNet max rest).1, (handsOutNet max rest).2)

/-- What is buffered comes first. -/
def handsOut (max : Nat) (s : Conn × Net) : Bytes × Last :=
  if s.1.bodyEom then (s.1.bodyBuf, .empty)
  else (s.1.bodyBuf ++ (handsOutNet max s.2).1, (handsOutNet max s.2).2)

/-- A call of `receive`: `b""` when nothing more is handed out, or the next bytes of what is, or an
exception. -/
theorem receive_cases {size : Nat} (net : Net) (hsize : 0 < size) (h : c.Reading) :
    (∃ c' net', c.receive max size net = .ok ([], c', net') ∧
      handsOut max (c, net) = ([], .empty)) ∨
    (∃ bytes c' net', c.receive max size net = .ok (bytes, c', net') ∧ bytes ≠ [] ∧ c'.Reading ∧
      (handsOut max (c, net)).1 = bytes ++ (handsOut max (c', net')).1 ∧
      (handsOut max (c, net)).2 = (handsOut max (c', net')).2) ∨
    (∃ e, c.receive max size net = .error (.raises e) ∧ (handsOut max (c, net)).2 = .raises) := by
  -- Something is buffered, or the message is complete: no `recv`.
  have htake : ∀ (c : Conn) (net : Net), c.Reading → ¬(c.bodyBuf = [] ∧ c.bodyEom = false) →
      (∃ c' net', c.receive max size net = .ok ([], c', net') ∧
        handsOut max (c, net) = ([], .empty)) ∨
      (∃ bytes c' net', c.receive max size net = .ok (bytes, c', net') ∧ bytes ≠ [] ∧ c'.Reading ∧
        (handsOut max (c, net)).1 = bytes ++ (handsOut max (c', net')).1 ∧
        (handsOut max (c, net)).2 = (handsOut max (c', net')).2) := by
    intro c net h hready
    by_cases hbuf : c.bodyBuf = []
    · have heom : c.bodyEom = true := by simpa [hbuf] using hready
      refine .inl ⟨c, net, ?_, by simp [handsOut, heom, hbuf]⟩
      unfold receive
      rw [if_neg hready]
      simp [takeBody, hbuf]
    · refine .inr ⟨c.bodyBuf.take size, { c with bodyBuf := c.bodyBuf.drop size }, net, ?_, ?_,
        ⟨h.oversize, h.drops, h.flag⟩, ?_, ?_⟩
      · unfold receive
        rw [if_neg hready]
        simp [takeBody, hbuf]
      · simp only [ne_eq, List.take_eq_nil_iff, hbuf, or_false]
        omega
      · cases heom : c.bodyEom <;> simp [handsOut, heom, ← List.append_assoc]
      · cases heom : c.bodyEom <;> simp [handsOut, heom]
  induction net generalizing c with
  | fin =>
    by_cases hready : c.bodyBuf = [] ∧ c.bodyEom = false
    · refine .inl ⟨c, .fin, ?_, by simp [handsOut, handsOutNet, hready.1, hready.2]⟩
      unfold receive
      rw [if_pos hready]
    · exact (htake c .fin h hready).imp_right .inl
  | fails =>
    by_cases hready : c.bodyBuf = [] ∧ c.bodyEom = false
    · refine .inr (.inr ⟨.osError, ?_, by simp [handsOut, handsOutNet, hready.2]⟩)
      unfold receive
      rw [if_pos hready]
    · exact (htake c .fails h hready).imp_right .inl
  | chunk chunk rest ih =>
    by_cases hready : c.bodyBuf = [] ∧ c.bodyEom = false
    · obtain ⟨hbuf, heom⟩ := hready
      unfold receive
      rw [if_pos ⟨hbuf, heom⟩]
      rcases feedBody_cases max h hbuf chunk with
        ⟨hbad, e, hfeed⟩ | ⟨hmark, hlen, d, hfeed, hd, hdbuf, hdeom⟩
      · exact .inr (.inr ⟨e, by simp only [hfeed], by simp [handsOut, handsOutNet, heom, hbad]⟩)
      · simp only [hfeed]
        have hsame : handsOut max (c, .chunk chunk rest) = handsOut max (d, rest) := by
          rw [heom, Bool.false_or] at hdeom
          by_cases hm : chunk.mark = .endOfMessage
          · simp [handsOut, handsOutNet, heom, hbuf, hdeom, hdbuf, hm, Nat.not_lt.2 hlen]
          · simp [handsOut, handsOutNet, heom, hbuf, hdeom, hdbuf, hm, hmark, Nat.not_lt.2 hlen]
        rw [hsame]
        exact ih hd
    · exact (htake c _ h hready).imp_right .inl

/-- Bytes that are returned are no longer buffered and no longer on the way. -/
theorem receive_decreases {size : Nat} {net net' : Net} {bytes : Bytes} (hsize : 0 < size)
    (h : c.receive max size net = .ok (bytes, c', net')) (hne : bytes ≠ []) :
    c'.bodyBuf.length + net'.size < c.bodyBuf.length + net.size := by
  -- what is handed out leaves the buffer
  have htake : ∀ (c : Conn) (net : Net), .ok ((c.takeBody size).1, (c.takeBody size).2, net) =
      (.ok (bytes, c', net') : Except Stop (Bytes × Conn × Net)) →
      c'.bodyBuf.length + net'.size < c.bodyBuf.length + net.size := by
    intro c net h
    unfold takeBody at h
    split at h
    · cases h
      exact absurd rfl hne
    · rename_i hbuf
      cases h
      have hpos := List.length_pos_iff.2 hbuf
      simp only [List.length_drop]
      omega
  induction net generalizing c with
  | fin =>
    unfold receive at h
    split at h
    · cases h
      exact absurd rfl hne
    · exact htake c .fin h
  | fails =>
    unfold receive at h
    split at h
    · cases h
    · exact htake c .fails h
  | chunk chunk rest ih =>
    unfold receive at h
    split at h
    · simp only at h
      split at h
      · cases h
      -- the chunk goes into the buffer with no more than its own bytes
      · rename_i d hfeed
        have hlen := feedBody_length hfeed
        have hrest := ih h
        simp only [Net.size]
        omega
    · exact htake c _ h

/-- The backend as a transport. -/
def transport (max : Nat) : Transport (Conn × Net) where
  receive size s := s.1.receive max size s.2
  left s := s.1.bodyBuf.length + s.2.size
  decreases hsize h hne := receive_decreases hsize h hne

/-- The bytes end with `b""` at the end of the message and at a FIN, unless a chunk is too large. -/
theorem handsOutNet_empty_iff (max : Nat) (net : Net) : (handsOutNet max net).2 = .empty ↔
    net.Fits max ∧ (net.delivery.ending = .endOfMessage ∨ net.delivery.ending = .gone) := by
  induction net with
  | fin => simp [handsOutNet, Net.Fits, Net.delivery]
  | fails => simp [handsOutNet, Net.delivery]
  | chunk chunk rest ih =>
    by_cases hlen : max < chunk.bytes.length
    · simp [handsOutNet, Net.Fits, hlen, Nat.not_le.2 hlen]
    · have hle : chunk.bytes.length ≤ max := Nat.le_of_not_lt hlen
      cases hm : chunk.mark with
      | malformed => simp [handsOutNet, Net.delivery, hm]
      | endOfMessage => simp [handsOutNet, Net.Fits, Net.delivery, hm, hlen, hle]
      | more => simp [handsOutNet, Net.Fits, Net.delivery, Delivery.after, hm, hlen, hle, ih]

/-- What a call that came to an end has handed out is the body. -/
theorem handsOutNet_body (max : Nat) (net : Net) (h : (handsOutNet max net).2 = .empty) :
    (handsOutNet max net).1 = net.delivery.body := by
  induction net with
  | fin => rfl
  | fails => rfl
  | chunk chunk rest ih =>
    unfold handsOutNet at h ⊢
    split at h
    · cases h
    · rename_i hfit
      rw [if_neg hfit]
      split at h
      · rename_i hm
        simp [Net.delivery, hm]
      · rename_i hm
        have hmore : chunk.mark = .more := by
          cases hmark : chunk.mark with
          | more => rfl
          | endOfMessage => exact absurd hmark hm
          | malformed => exact absurd (.inl hmark) hfit
        rw [if_neg hm, ih h]
        simp [Net.delivery, hmore, Delivery.after]

/-- After the dispatch what is handed out begins with the chunk of the head. -/
theorem dispatch_cases (max : Nat) (first : Chunk) (net : Net) :
    ((first.mark = .malformed ∨ max < first.bytes.length) ∧
      ∃ e, dispatch max first = .error (.raises e)) ∨
    ∃ c, dispatch max first = .ok c ∧ c.Reading ∧
      handsOut max (c, net) = handsOutNet max (.chunk first net) := by
  have hstart : Reading { start with ctx := some 0 } := ⟨rfl, rfl, rfl⟩
  unfold dispatch
  rcases feedBody_cases max hstart rfl first with
    ⟨hbad, e, hfeed⟩ | ⟨hmark, hlen, d, hfeed, hd, hdbuf, hdeom⟩
  · exact .inl ⟨hbad, e, by simp only [hfeed]⟩
  · refine .inr ⟨{ d with tracked := false }, by simp only [hfeed],
      ⟨hd.oversize, by simp [drops], hd.flag⟩, ?_⟩
    by_cases hm : first.mark = .endOfMessage
    · simp [handsOut, handsOutNet, hdeom, hdbuf, hm, Nat.not_lt.2 hlen]
    · simp [handsOut, handsOutNet, start, hdeom, hdbuf, hm, hmark, Nat.not_lt.2 hlen]

end Conn

/-- `read_body` in a handler on a worker. -/
def readBody (max maxSize : Nat) (first : Chunk) (net : Net) : Except Stop Bytes :=
  match Conn.dispatch max first with
  | .error e => .error e
  | .ok c => (Conn.transport max).readBody maxSize (c, net)

variable {max maxSize : Nat} {first : Chunk} {net : Net}

end LocalPost.Http.Httptools
