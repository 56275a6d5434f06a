import LocalPost.Http.Writer.Received
import LocalPost.Http.Wsgi.Respond

/-!
# WSGI and the native server

The same handler and request on a native backend: there the body is read during the call. What the
native server sends, a WSGI server gets too, exactly when the resources the body is read from
outlive the handler's call.
-/

set_option autoImplicit false

namespace LocalPost.Http.Wsgi

open LocalPost.Core LocalPost.Http.Writer

/-- `b"GET"`. -/
def getMethod : Bytes := [71, 69, 84]

namespace Call

/-- The call on a native context: the iterator and the file are read at once. `socket.sendfile`
raises for a closed file and for a count of zero. -/
def nativeAnswer (call : Call) : Answer :=
  match call.asked with
  | .complete r body => .complete r body
  | .stream r pieces =>
    .stream r (chunksOf call.world pieces).1
      (if (chunksOf call.world pieces).2 then .raises else .finished)
  | .sendfile r f offset count =>
    match call.world.file f with
    | none => .sendfile r count [] true
    | some data =>
      if count = 0 then .sendfile r count [] true
      else .sendfile r count ((data.drop offset).take count) false

/-- The response of the call. -/
def response (call : Call) : Response :=
  match call.asked with
  | .complete r _ => r
  | .stream r _ => r
  | .sendfile r _ _ _ => r

/-- What `sendfile` asks of its caller: the response declares the count. -/
def Declared (call : Call) : Prop :=
  match call.asked with
  | .complete _ _ => True
  | .stream _ _ => True
  | .sendfile r _ _ count => r.Declares count

/-- The status of the response allows a body. -/
def bodyAllowed (call : Call) : Bool := responseAllowsBody getMethod call.response.statusCode

end Call

/-- A piece is still there after the handler has closed `exit`: a file is open; an iterator that is
closed had no byte left. Where no body is allowed the native server sends none, so then no byte may
be there. -/
def Piece.Outlives (bodyAllowed : Bool) (w : World) (exit : List Nat) : Piece → Prop
  | .bytes b => bodyAllowed = true ∨ b = []
  | .rest r =>
    if bodyAllowed then r ∈ exit → (w.iterator r).flatten = []
    else r ∈ exit ∨ (w.iterator r).flatten = []
  | .read f offset size =>
    f ∉ exit ∧ (bodyAllowed = true ∨ (((w.file f).getD []).drop offset).take size = [])

/-- What the body is read from outlives the call. -/
def Call.Outlives (call : Call) : Prop :=
  match call.asked with
  | .complete _ body => call.bodyAllowed = true ∨ body.getD [] = []
  | .stream _ pieces => ∀ piece ∈ pieces, piece.Outlives call.bodyAllowed call.world call.exit
  | .sendfile _ f _ _ => f ∉ call.exit

/-- Once an iterator has been read to its end, the other pieces need what they needed before. -/
theorem Piece.outlives_drain {bodyAllowed : Bool} {w : World} {exit : List Nat} {r : Nat}
    (h : (Piece.rest r).Outlives bodyAllowed w exit) (piece : Piece) :
    piece.Outlives bodyAllowed (w.drain r) exit ↔ piece.Outlives bodyAllowed w exit := by
  cases piece with
  | bytes b => rfl
  | read f offset size => rfl
  | rest s =>
    by_cases hs : s = r
    · subst hs
      have hempty : ((w.drain s).iterator s).flatten = [] := by
        rw [World.drain]
        simp
      cases bodyAllowed with
      | true => exact ⟨fun _ => h, fun _ _ => hempty⟩
      | false => exact ⟨fun _ => h, fun _ => .inr hempty⟩
    · have hsame : (w.drain r).iterator s = w.iterator s := if_neg hs
      rw [Piece.Outlives, Piece.Outlives, hsame]

/-- A file that the native server could read was open. -/
theorem file_of_read {w : World} {f offset size : Nat} {pieces : List Piece}
    (h : (chunksOf w (.read f offset size :: pieces)).2 = false) :
    ∃ data, w.file f = some data ∧ (chunksOf w pieces).2 = false := by
  cases hf : w.file f with
  | none =>
    rw [chunksOf_read_closed hf] at h
    cases h
  | some data =>
    rw [chunksOf_read hf] at h
    exact ⟨data, rfl, h⟩

/-- What is read later is not more. -/
theorem length_leave_le {exit : List Nat} {pieces : List Piece} {w : World}
    (h : (chunksOf w pieces).2 = false) :
    (chunksOf (w.leave exit) pieces).1.flatten.length ≤ (chunksOf w pieces).1.flatten.length := by
  induction pieces generalizing w with
  | nil => exact Nat.le_refl 0
  | cons piece pieces ih =>
    -- a piece known beforehand, the rest of an iterator, or a range of a file
    cases piece with
    | bytes b =>
      rw [chunksOf, chunksOf, List.flatten_cons, List.flatten_cons, List.length_append,
        List.length_append]
      exact Nat.add_le_add_left (ih h) _
    | rest r =>
      have hrest : (chunksOf (w.drain r) pieces).2 = false := h
      rw [chunksOf, chunksOf, List.flatten_append, List.flatten_append, List.length_append,
        List.length_append, World.drain_leave, World.leave_iterator]
      -- what leaves the block ends the iterator, or lets it be
      refine Nat.add_le_add ?_ (ih hrest)
      split
      · exact Nat.zero_le _
      · exact Nat.le_refl _
    | read f offset size =>
      obtain ⟨data, hf, hrest⟩ := file_of_read h
      rw [chunksOf_read hf]
      -- a file that was closed on leaving gives nothing
      by_cases hmem : f ∈ exit
      · rw [chunksOf_read_closed (by rw [World.leave_file, if_pos hmem])]
        exact Nat.zero_le _
      · rw [chunksOf_read (by rw [World.leave_file, if_neg hmem, hf]), List.flatten_cons,
          List.flatten_cons, List.length_append, List.length_append]
        exact Nat.add_le_add_left (ih hrest) _

/-- An iterator in front of other pieces: its bytes are there when they should be, and so is the
rest. -/
theorem rest_iff {w : World} {exit : List Nat} {r : Nat} {late early : Bytes} (bodyAllowed : Bool)
    (hle : late.length ≤ early.length) :
    (((w.leave exit).iterator r).flatten ++ late =
        if bodyAllowed then (w.iterator r).flatten ++ early else []) ↔
      (Piece.rest r).Outlives bodyAllowed w exit ∧ late = if bodyAllowed then early else [] := by
  rw [World.leave_iterator, Piece.Outlives]
  by_cases hr : r ∈ exit
  · rw [if_pos hr]
    cases bodyAllowed with
    | false => simp [hr]
    | true =>
      simp only [List.flatten_nil, List.nil_append, if_true]
      constructor
      · intro heq
        -- Nothing can be missing, for the rest is not longer than it was.
        have hlen := congrArg List.length heq
        rw [List.length_append] at hlen
        have hnil : (w.iterator r).flatten = [] := List.length_eq_zero_iff.1 (by omega)
        rw [hnil, List.nil_append] at heq
        exact ⟨fun _ => hnil, heq⟩
      · rintro ⟨hhead, htail⟩
        rw [hhead hr, htail, List.nil_append]
  · rw [if_neg hr]
    cases bodyAllowed with
    | false => simp [hr]
    | true => simp [hr]

/-- What a stream yields after the handler has returned is what the native server sends exactly when
its pieces outlive the call. -/
theorem stream_iff {exit : List Nat} {pieces : List Piece} {w : World} (bodyAllowed : Bool)
    (h : (chunksOf w pieces).2 = false) :
    ((chunksOf (w.leave exit) pieces).2 = false ∧
      (chunksOf (w.leave exit) pieces).1.flatten =
        if bodyAllowed then (chunksOf w pieces).1.flatten else []) ↔
      ∀ piece ∈ pieces, piece.Outlives bodyAllowed w exit := by
  induction pieces generalizing w with
  | nil => cases bodyAllowed <;> simp [chunksOf]
  | cons piece pieces ih =>
    rw [List.forall_mem_cons]
    cases piece with
    | bytes b =>
      have hrest : (chunksOf w pieces).2 = false := h
      rw [← ih hrest, chunksOf, chunksOf, List.flatten_cons, List.flatten_cons, Piece.Outlives]
      -- a status without a body asks for nothing, else the bytes are there in any case
      cases bodyAllowed with
      | true => simp
      | false =>
        simp only [Bool.false_eq_true, if_false, List.append_eq_nil_iff, false_or]
        tauto
    | rest r =>
      have hrest : (chunksOf (w.drain r) pieces).2 = false := h
      -- the pieces behind it read what this one has left of the iterator
      have hpieces : (Piece.rest r).Outlives bodyAllowed w exit →
          ((∀ piece ∈ pieces, piece.Outlives bodyAllowed (w.drain r) exit) ↔
            ∀ piece ∈ pieces, piece.Outlives bodyAllowed w exit) := fun hhead =>
        forall₂_congr fun piece _ => Piece.outlives_drain hhead piece
      rw [chunksOf, chunksOf, World.drain_leave, List.flatten_append, List.flatten_append,
        rest_iff bodyAllowed (length_leave_le hrest), and_left_comm, ih hrest]
      exact and_congr_right hpieces
    | read f offset size =>
      obtain ⟨data, hf, hrest⟩ := file_of_read h
      rw [chunksOf_read hf]
      -- a closed file cannot be read any more
      by_cases hmem : f ∈ exit
      · rw [chunksOf_read_closed (by rw [World.leave_file, if_pos hmem])]
        simp [Piece.Outlives, hmem]
      · rw [chunksOf_read (by rw [World.leave_file, if_neg hmem, hf]), ← ih hrest,
          List.flatten_cons, List.flatten_cons, Piece.Outlives, hf, Option.getD_some]
        cases bodyAllowed with
        | true => simp [hmem]
        | false =>
          simp only [Bool.false_eq_true, if_false, List.append_eq_nil_iff, false_or]
          tauto

/-! ## Agreement -/

/-- What the native server sends for a call, if it sends it. -/
def Call.nativeBody (call : Call) : Bytes := call.nativeAnswer.body call.bodyAllowed

/-- Once the handler has returned, the WSGI server gets what the native server sends for a call that
comes to its end exactly when what the body is read from outlives the call. -/
theorem respond_iff (wrapper : Bool) {call : Call} (hfinish : call.nativeAnswer.finishes = true) :
    respond wrapper (call.world.leave call.exit) (capture call.asked) =
        some (call.response.statusCode, call.nativeBody) ↔ call.Outlives := by
  rw [Call.nativeBody, Call.nativeAnswer, Call.response, Call.Outlives]
  rw [Call.nativeAnswer] at hfinish
  cases hasked : call.asked with
  -- The bytes are there already: nothing can be closed under them.
  | complete r body =>
    simp only [capture, respond, Answer.body, Option.some.injEq, Prod.mk.injEq, true_and]
    cases call.bodyAllowed with
    | true => simp
    | false => simp
  | stream r pieces =>
    rw [hasked] at hfinish
    have hopen : (chunksOf call.world pieces).2 = false := by
      cases hraises : (chunksOf call.world pieces).2 with
      | false => rfl
      | true => simp [Answer.finishes, hraises] at hfinish
    simp only [capture, respond, Answer.body]
    rw [← stream_iff call.bodyAllowed hopen]
    cases (chunksOf (call.world.leave call.exit) pieces).2 with
    | true => simp
    | false => simp
  | sendfile r f offset count =>
    rw [hasked] at hfinish
    simp only [capture, respond]
    rw [World.leave_file]
    by_cases hmem : f ∈ call.exit
    · rw [if_pos hmem]
      simp [hmem]
    · rw [if_neg hmem]
      cases hf : call.world.file f with
      | none =>
        simp only [hf] at hfinish
        cases hfinish
      | some data =>
        -- Whichever reads the file, the blocks together are the part that was asked for.
        have hblocks : (if wrapper then wrapperChunks count (data.drop offset)
            else readChunks count (data.drop offset)).flatten = (data.drop offset).take count := by
          cases wrapper with
          | true => exact flatten_wrapperChunks count _
          | false => exact flatten_readChunks count _
        by_cases hcount : count = 0
        · simp only [hf, if_pos hcount] at hfinish
          cases hfinish
        · simp only [Option.map_some, hblocks, if_neg hcount, Answer.body]
          simp [hmem]

/-- The end of `static_handler`: the file is open in a `with` block around `sendfile`. -/
def staticFile (r : Response) (data : Bytes) (offset length : Nat) : Call where
  world := ⟨fun _ => some data, fun _ => []⟩
  asked := .sendfile r 0 offset length
  exit := [0]

/-- `run_wsgi` on a body that yields these chunks: the first one that is not empty is pulled before
`stream`, and the body is closed on the way out when it has a `close`. -/
def wrapWsgi (r : Response) (chunks : List Bytes) (hasClose : Bool) : Call where
  world := ⟨fun _ => none, fun _ => (chunks.dropWhile (· = [])).tail.filter (· ≠ [])⟩
  asked := .stream r (((chunks.dropWhile (· = [])).head?.map Piece.bytes).toList ++ [.rest 0])
  exit := if hasClose then [0] else []

/-- The file is closed when the WSGI server comes to read it. -/
theorem not_outlives_staticFile (r : Response) (data : Bytes) (offset length : Nat) :
    ¬(staticFile r data offset length).Outlives := fun h => h List.mem_cons_self

/-- Of a body that is closed on the way out, only the first chunk is left. -/
theorem outlives_wrapWsgi_iff {r : Response} (h : responseAllowsBody getMethod r.statusCode = true)
    (chunks : List Bytes) (hasClose : Bool) :
    (wrapWsgi r chunks hasClose).Outlives ↔
      (hasClose = true → (chunks.dropWhile (· = [])).tail.flatten = []) := by
  have hallowed : (wrapWsgi r chunks hasClose).bodyAllowed = true := h
  -- the first chunk has been taken before the handler leaves its `with`
  have hfirst : ∀ piece ∈ ((chunks.dropWhile (· = [])).head?.map Piece.bytes).toList,
      piece.Outlives true (wrapWsgi r chunks hasClose).world (wrapWsgi r chunks hasClose).exit := by
    intro piece hmem
    rw [Option.mem_toList] at hmem
    obtain ⟨b, -, rfl⟩ := Option.map_eq_some_iff.1 hmem
    exact .inl rfl
  -- what is left of the iterator is read later, and `close` may have emptied it
  have hrest : (Piece.rest 0).Outlives true (wrapWsgi r chunks hasClose).world
      (wrapWsgi r chunks hasClose).exit ↔
      (hasClose = true → (chunks.dropWhile (· = [])).tail.flatten = []) := by
    rw [Piece.Outlives, if_pos rfl, wrapWsgi]
    simp only [List.flatten_filter_ne_nil]
    cases hasClose with
    | true => simp
    | false => simp
  rw [← hrest, Call.Outlives, hallowed]
  constructor
  · intro hall
    exact hall (.rest 0) (List.mem_append_right _ List.mem_cons_self)
  · intro hlast piece hmem
    rcases List.mem_append.1 hmem with hmem | hmem
    · exact hfirst piece hmem
    · rw [List.mem_singleton.1 hmem]
      exact hlast

end LocalPost.Http.Wsgi
