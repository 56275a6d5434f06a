import LocalPost.Http.Body.Bridge
import LocalPost.Http.Compress.Framing
import LocalPost.Http.Wsgi.Wrapped

/-!
# A handler behind both WSGI bridges

`to_wsgi` makes an application of a handler, and `wrap_wsgi` a handler of an application. A handler
that is turned around twice reads the body of its request as before (`receives_delivered`), and
hands over the status, the headers and the body that it hands over itself, exactly when what the
body is read from outlives its call (`turned_iff_outlives`).
-/

set_option autoImplicit false

namespace LocalPost.Http.Wsgi

open LocalPost.Core LocalPost.Http.Writer

/-! ## The body of the request -/

/-- `_RequestBodyStream`. -/
structure RequestBodyStream where
  buf : Bytes
  pos : Nat
  deriving DecidableEq, Repr

namespace RequestBodyStream

/-- `readall`. -/
def readall (s : RequestBodyStream) : Bytes × RequestBodyStream :=
  (s.buf.drop s.pos, { s with pos := s.buf.length })

/-- `readinto` for a buffer of `n` bytes, with what it puts there. -/
def readinto (n : Nat) (s : RequestBodyStream) : Bytes × RequestBodyStream :=
  let avail := s.buf.length - s.pos
  if avail = 0 then ([], s)
  else
    let take := min n avail
    ((s.buf.drop s.pos).take take, { s with pos := s.pos + take })

/-- `RawIOBase.read`: everything for a negative size. -/
def read (n : Int) (s : RequestBodyStream) : Bytes × RequestBodyStream :=
  if n < 0 then s.readall else s.readinto n.toNat

/-- What calls of `receive` return, one after the other. -/
def receives : RequestBodyStream → List Nat → List Bytes
  | _, [] => []
  | s, size :: sizes => (s.read size).1 :: receives (s.read size).2 sizes

/-- What is still to be read. -/
def rest (s : RequestBodyStream) : Bytes := s.buf.drop s.pos

/-- `read` takes from the front of what is left. -/
theorem read_natCast (size : Nat) (s : RequestBodyStream) :
    (s.read size).1 = s.rest.take size ∧ (s.read size).2.rest = s.rest.drop size := by
  have hnat : s.read size = s.readinto size := by
    rw [read, if_neg (by omega), Int.toNat_natCast]
  have hlen : s.rest.length = s.buf.length - s.pos := List.length_drop
  rw [hnat, readinto]
  split
  · rename_i hempty
    have hnil : s.rest = [] := List.length_eq_zero_iff.1 (hlen.trans hempty)
    rw [hnil, List.take_nil, List.drop_nil]
    exact ⟨rfl, rfl⟩
  · constructor
    · change s.rest.take (min size (s.buf.length - s.pos)) = _
      rw [← hlen, ← List.take_take, List.take_length]
    · change s.buf.drop (s.pos + min size (s.buf.length - s.pos)) = _
      rw [← List.drop_drop]
      change s.rest.drop (min size (s.buf.length - s.pos)) = s.rest.drop size
      by_cases hle : size ≤ s.rest.length
      · rw [← hlen, Nat.min_eq_left hle]
      · rw [← hlen, Nat.min_eq_right (by omega), List.drop_length,
          List.drop_eq_nil_of_le (by omega)]

/-- At the end of the body every call returns `b""`. -/
theorem receives_nil {s : RequestBodyStream} (h : s.rest = []) (sizes : List Nat) :
    ∀ chunk ∈ s.receives sizes, chunk = [] := by
  induction sizes generalizing s with
  | nil => exact fun chunk hmem => absurd hmem List.not_mem_nil
  | cons size sizes ih =>
    obtain ⟨hread, hrest⟩ := s.read_natCast size
    rw [h, List.take_nil] at hread
    rw [h, List.drop_nil] at hrest
    intro chunk hmem
    rcases List.mem_cons.1 hmem with rfl | hmem
    · exact hread
    · exact ih hrest chunk hmem

theorem dropWhile_eq_self_of_all_nil {results : List Bytes} (h : ∀ chunk ∈ results, chunk = []) :
    results.dropWhile (· ≠ []) = results ∧ results.takeWhile (· ≠ []) = [] := by
  cases results with
  | nil => exact ⟨rfl, rfl⟩
  | cons chunk results =>
    have hfalse : ¬(decide (chunk ≠ []) = true) := by
      rw [h chunk List.mem_cons_self]
      decide
    exact ⟨List.dropWhile_cons_of_neg hfalse, List.takeWhile_cons_of_neg hfalse⟩

/-- The calls deliver the body, whatever their sizes. -/
theorem delivered (s : RequestBodyStream) (sizes : List Nat) (h : ∀ size ∈ sizes, 0 < size) :
    (s.receives sizes).length = sizes.length ∧ Delivered s.rest true sizes (s.receives sizes) := by
  induction sizes generalizing s with
  | nil =>
    exact ⟨rfl, ⟨.nil, List.nil_prefix, fun hmem => absurd hmem List.not_mem_nil,
      fun chunk hmem => absurd hmem List.not_mem_nil⟩⟩
  | cons size sizes ih =>
    obtain ⟨hread, hrest⟩ := s.read_natCast size
    obtain ⟨hlen, hih⟩ := ih (s.read size).2 fun n hn => h n (List.mem_cons_of_mem _ hn)
    have hlength : (s.receives (size :: sizes)).length = (size :: sizes).length := by
      rw [receives, List.length_cons, List.length_cons, hlen]
    refine ⟨hlength, ?_⟩
    -- every answer is at most as long as asked for
    have hwithin : List.Forall₂ (fun chunk n => chunk.length ≤ n) (s.receives (size :: sizes))
        ((size :: sizes).take (s.receives (size :: sizes)).length) := by
      rw [hlength, List.take_length, receives]
      refine .cons ?_ ?_
      · rw [hread]
        exact List.length_take_le _ _
      · have htail := hih.within
        rwa [hlen, List.take_length] at htail
    by_cases hempty : s.rest = []
    · -- the body is read: from here on there is nothing
      have hall := receives_nil hempty (size :: sizes)
      obtain ⟨hdrop, htake⟩ := dropWhile_eq_self_of_all_nil hall
      refine ⟨hwithin, ?_, fun _ => ⟨rfl, ?_⟩, fun chunk hmem => hall chunk (hdrop ▸ hmem)⟩
      · rw [List.flatten_eq_nil_iff.2 hall]
        exact List.nil_prefix
      · rw [htake, hempty]
        rfl
    -- there is a body left, and the size is positive, so this answer is not empty
    · have hne : s.rest.take size ≠ [] := by
        intro hnil
        rcases List.take_eq_nil_iff.1 hnil with hzero | hnil
        · exact Nat.ne_of_gt (h size List.mem_cons_self) hzero
        · exact hempty hnil
      have htrue : decide (s.rest.take size ≠ []) = true := decide_eq_true hne
      refine ⟨hwithin, ?_, fun hmem => ⟨rfl, ?_⟩, ?_⟩
      · rw [receives, List.flatten_cons, hread]
        obtain ⟨tail, htail⟩ := hih.begun
        refine ⟨tail, ?_⟩
        rw [List.append_assoc, htail, hrest, List.take_append_drop]
      · rw [receives, hread] at hmem ⊢
        have hlater : [] ∈ (s.read size).2.receives sizes :=
          (List.mem_cons.1 hmem).resolve_left fun heq => hne heq.symm
        rw [List.takeWhile_cons_of_pos (p := fun x => decide (x ≠ [])) htrue, List.flatten_cons,
          (hih.whole hlater).2, hrest, List.take_append_drop]
      · rw [receives, hread, List.dropWhile_cons_of_pos (p := fun x => decide (x ≠ [])) htrue]
        exact hih.after

end RequestBodyStream

/-- For every body and every sequence of sizes: the calls of `receive` in a handler behind both
bridges return the body piece by piece, none longer than asked for, and then `b""`. -/
theorem receives_delivered (body : Bytes) (sizes : List Nat) (h : ∀ size ∈ sizes, 0 < size) :
    Delivered body true sizes ((RequestBodyStream.mk body 0).receives sizes) :=
  ((RequestBodyStream.mk body 0).delivered sizes h).2

theorem receives_delivered_threeBytes :
    Delivered [1, 2, 3] true [2, 2, 2] ((RequestBodyStream.mk [1, 2, 3] 0).receives [2, 2, 2]) :=
  receives_delivered [1, 2, 3] [2, 2, 2] (by decide)

/-! ## The response -/

/-- The iteration over some chunks. -/
def Body.ofChunks (chunks : List Bytes) (raises : Bool) : Body :=
  chunks.foldr .yields (if raises then .raises else .stops)

/-- `_status_line`: `phrase` is what `HTTPStatus` has for a number, if anything. -/
def statusLine (phrase : Nat → Str) (r : Response) : Str :=
  decodeLatin1 (decimalText r.statusCode) ++
    ' ' :: (if r.reason ≠ [] then decodeLatin1 r.reason else phrase r.statusCode)

/-- What `_respond` returns. -/
def respondIterable (wrapper : Bool) (w : World) (c : Captured) : Option Iterable :=
  match c.completed, c.streaming, c.sendfile with
  | some (_, body), _, _ => some ⟨.ofChunks (if body = [] then [] else [body]) false, false⟩
  | none, some (_, pieces), _ => some ⟨.ofChunks (chunksOf w pieces).1 (chunksOf w pieces).2, true⟩
  | none, none, some (_, f, offset, count) =>
    (w.file f).map fun data =>
      ⟨.ofChunks (if wrapper then wrapperChunks count (data.drop offset)
        else readChunks count (data.drop offset)) false, !wrapper⟩
  | none, none, none => none

/-- `wsgi_app`, behind the call of the handler. -/
def wsgiApp (phrase : Nat → Str) (wrapper : Bool) (call : Call) : App :=
  .startResponse (statusLine phrase call.response) (strHeaders call.response.headers) false
    (match respondIterable wrapper (call.world.leave call.exit) (capture call.asked) with
      | some it => .returns it
      | none => .raises)
    .raises

/-! ## What comes of it -/

theorem space_not_mem_decimal (n : Nat) : ' ' ∉ decodeLatin1 (decimalText n) := by
  intro hmem
  obtain ⟨b, hb, hspace⟩ := List.mem_map.1 hmem
  have hb32 : b.toNat = 32 := by
    rw [← toNat_charOfByte, hspace]
    rfl
  have hle : 48 ≤ b.toNat := UInt8.le_iff_toNat_le.1 (Ascii.isDigit_iff.1 (mem_decimalText hb)).1
  omega

section

variable {int : Str → Option Nat} {phrase : Nat → Str}

/-- The status line says the status. -/
theorem responseOf_statusLine (hint : ∀ n, int (decodeLatin1 (decimalText n)) = some n)
    (hphrase : ∀ n, (encodeLatin1 (phrase n)).isSome) (r : Response) :
    ∃ reason, responseOf int (statusLine phrase r) (strHeaders r.headers) =
      some ⟨r.statusCode, r.headers, reason⟩ := by
  obtain ⟨reason, hwire⟩ : ∃ reason, encodeLatin1
      (if r.reason ≠ [] then decodeLatin1 r.reason else phrase r.statusCode) = some reason := by
    split
    · exact ⟨_, encodeLatin1_decodeLatin1 r.reason⟩
    · exact Option.isSome_iff_exists.1 (hphrase r.statusCode)
  refine ⟨reason, ?_⟩
  rw [responseOf, statusLine, wireHead_strHeaders (space_not_mem_decimal r.statusCode)
    (hint r.statusCode) hwire]
  rfl

/-- The chunks are all that are not empty. -/
theorem chunksFrom_ofChunks (s : ResponseState) (chunks : List Bytes) (raises : Bool) :
    chunksFrom int s (.ofChunks chunks raises) = (chunks.filter (· ≠ []), raises) := by
  induction chunks with
  | nil => cases raises <;> rfl
  | cons chunk chunks ih =>
    rw [Body.ofChunks, List.foldr_cons, chunksFrom]
    change (if chunk ≠ [] then _ else chunksFrom int s (.ofChunks chunks raises)) = _
    by_cases hne : chunk ≠ []
    · rw [if_pos hne, List.filter_cons_of_pos (by simpa using hne)]
      change (chunk :: (chunksFrom int s (.ofChunks chunks raises)).1,
        (chunksFrom int s (.ofChunks chunks raises)).2) = _
      rw [ih]
    · rw [if_neg hne, List.filter_cons_of_neg (by simpa using hne), ih]

/-- Where the loop for the first chunk ends in an iteration without calls of `start_response`. -/
theorem pullFirst_ofChunks (s : ResponseState) (chunks : List Bytes) (raises : Bool) :
    (chunks.filter (· ≠ []) = [] ∧
      pullFirst int s (.ofChunks chunks raises) = (s, if raises then .raised else .exhausted)) ∨
    ∃ chunk rest, chunks.filter (· ≠ []) = chunk :: rest.filter (· ≠ []) ∧
      pullFirst int s (.ofChunks chunks raises) = (s, .chunk chunk (.ofChunks rest raises)) := by
  induction chunks with
  | nil => exact .inl ⟨rfl, by cases raises <;> rfl⟩
  | cons chunk chunks ih =>
    have hpull : pullFirst int s (.ofChunks (chunk :: chunks) raises) =
        if chunk ≠ [] then (s, .chunk chunk (.ofChunks chunks raises))
        else pullFirst int s (.ofChunks chunks raises) := rfl
    rw [hpull]
    by_cases hne : chunk ≠ []
    · rw [if_pos hne, List.filter_cons_of_pos (by simpa using hne)]
      exact .inr ⟨chunk, chunks, rfl, rfl⟩
    · rw [if_neg hne, List.filter_cons_of_neg (by simpa using hne)]
      exact ih

/-- What the bridge hands over for an application that sets its head and returns some chunks. -/
theorem streamed_ofChunks {status : Str} {headers : List (Str × Str)} {r : Response}
    (hr : responseOf int status headers = some r) (chunks : List Bytes) (raises close : Bool) :
    (raises = false → ∃ sent, (runWsgi int (.startResponse status headers false
        (.returns ⟨.ofChunks chunks raises, close⟩) .raises)).streamed = some (r, sent, false) ∧
      sent.flatten = chunks.flatten) ∧
    (raises = true → ∀ r' sent, (runWsgi int (.startResponse status headers false
        (.returns ⟨.ofChunks chunks raises, close⟩) .raises)).streamed ≠
        some (r', sent, false)) := by
  have hrun : runApp int ⟨none, false⟩ (.startResponse status headers false
      (.returns ⟨.ofChunks chunks raises, close⟩) .raises) =
        (⟨some r, false⟩, some ⟨.ofChunks chunks raises, close⟩) := by
    rw [runApp, ResponseState.startResponse, if_neg (by simp), hr]
    rfl
  rw [runWsgi, hrun]
  dsimp only
  -- the iterator has nothing but empty chunks, or a first one that is not
  rcases @pullFirst_ofChunks int ⟨some r, false⟩ chunks raises with ⟨hnil, hpull⟩ |
    ⟨chunk, rest, hfilter, hpull⟩
  · rw [hpull]
    constructor
    · rintro rfl
      refine ⟨[], rfl, ?_⟩
      have hflatten : (chunks.filter (· ≠ [])).flatten = chunks.flatten :=
        List.flatten_filter_ne_nil
      rw [← hflatten, hnil]
    · rintro rfl r' sent hsent
      cases hsent
  · rw [hpull]
    dsimp only
    rw [chunksFrom_ofChunks]
    constructor
    · rintro rfl
      refine ⟨chunk :: rest.filter (· ≠ []), rfl, ?_⟩
      -- only empty chunks are dropped, so the body is the same
      rw [← hfilter, List.flatten_filter_ne_nil]
    · rintro rfl r' sent hsent
      cases hsent

/-- The two bridges hand over a response exactly when the WSGI server gets it. -/
theorem turned_iff_respond (hint : ∀ n, int (decodeLatin1 (decimalText n)) = some n)
    (hphrase : ∀ n, (encodeLatin1 (phrase n)).isSome) (wrapper : Bool) (call : Call)
    (body : Bytes) :
    (∃ r chunks, (runWsgi int (wsgiApp phrase wrapper call)).streamed = some (r, chunks, false) ∧
      r.statusCode = call.response.statusCode ∧ r.headers = call.response.headers ∧
        chunks.flatten = body) ↔
    respond wrapper (call.world.leave call.exit) (capture call.asked) =
      some (call.response.statusCode, body) := by
  obtain ⟨reason, hr⟩ := responseOf_statusLine hint hphrase call.response
  -- what the iterable yields decides on both sides
  have hiterable : ∀ {chunks : List Bytes} {raises close : Bool},
      respondIterable wrapper (call.world.leave call.exit) (capture call.asked) =
        some ⟨.ofChunks chunks raises, close⟩ →
      respond wrapper (call.world.leave call.exit) (capture call.asked) =
        (if raises then none else some (call.response.statusCode, chunks.flatten)) →
      ((∃ r sent, (runWsgi int (wsgiApp phrase wrapper call)).streamed = some (r, sent, false) ∧
        r.statusCode = call.response.statusCode ∧ r.headers = call.response.headers ∧
          sent.flatten = body) ↔
      respond wrapper (call.world.leave call.exit) (capture call.asked) =
        some (call.response.statusCode, body)) := by
    intro chunks raises close hit hrespond
    obtain ⟨hreturns, hraises⟩ := streamed_ofChunks hr chunks raises close
    rw [wsgiApp, hit, hrespond]
    dsimp only
    cases raises with
    | true =>
      refine ⟨?_, fun hsome => by cases hsome⟩
      rintro ⟨r, sent, hsent, -⟩
      exact absurd hsent (hraises rfl r sent)
    | false =>
      obtain ⟨sent, hsent, hflatten⟩ := hreturns rfl
      rw [if_neg Bool.false_ne_true]
      constructor
      · rintro ⟨r, sent', hsent', -, -, rfl⟩
        rw [hsent] at hsent'
        cases hsent'
        rw [hflatten]
      · intro hsome
        refine ⟨_, sent, hsent, rfl, rfl, ?_⟩
        rw [hflatten]
        exact congrArg Prod.snd (Option.some.inj hsome)
  cases hasked : call.asked with
  | complete r b =>
    have hstatus : call.response.statusCode = r.statusCode := by rw [Call.response, hasked]
    rw [← hasked]
    refine hiterable (by rw [hasked]; rfl) ?_
    rw [hasked, hstatus]
    change some (r.statusCode, b.getD []) =
      some (r.statusCode, (if b.getD [] = [] then [] else [b.getD []]).flatten)
    split
    · rename_i hnil
      rw [hnil]
      rfl
    · rw [List.flatten_singleton]
  | stream r pieces =>
    have hstatus : call.response.statusCode = r.statusCode := by rw [Call.response, hasked]
    rw [← hasked]
    refine hiterable (by rw [hasked]; rfl) ?_
    rw [hasked, hstatus]
    rfl
  | sendfile r f offset count =>
    have hstatus : call.response.statusCode = r.statusCode := by rw [Call.response, hasked]
    cases hf : (call.world.leave call.exit).file f with
    | none =>
      -- a closed file raises when its position is set
      have hit : respondIterable wrapper (call.world.leave call.exit)
          (capture call.asked) = none := by
        rw [hasked]
        change ((call.world.leave call.exit).file f).map _ = none
        rw [hf]
        rfl
      have hrespond : respond wrapper (call.world.leave call.exit)
          (capture (.sendfile r f offset count)) = none := by
        change ((call.world.leave call.exit).file f).map _ = none
        rw [hf]
        rfl
      have hrun : runApp int ⟨none, false⟩ (wsgiApp phrase wrapper call) =
          (⟨some ⟨call.response.statusCode, call.response.headers, reason⟩, false⟩, none) := by
        rw [wsgiApp, hit, runApp, ResponseState.startResponse, if_neg (by simp), hr]
        rfl
      rw [hrespond, runWsgi, hrun]
      refine ⟨?_, fun hsome => by cases hsome⟩
      rintro ⟨r', sent, hsent, -⟩
      cases hsent
    | some data =>
      rw [← hasked]
      refine @hiterable (if wrapper then wrapperChunks count (data.drop offset) else
        readChunks count (data.drop offset)) false (!wrapper) ?_ ?_
      · rw [hasked]
        change ((call.world.leave call.exit).file f).map _ = _
        rw [hf]
        rfl
      · rw [hasked, hstatus]
        change ((call.world.leave call.exit).file f).map _ = _
        rw [hf]
        rfl

end

/-- For every call of a handler that comes to its end on a native server: behind both bridges it
hands over the same status and headers, and the body that the native server sends for it, exactly
when what the body is read from outlives the call. -/
theorem turned_iff_outlives (int : Str → Option Nat) (phrase : Nat → Str)
    (hint : ∀ n, int (decodeLatin1 (decimalText n)) = some n)
    (hphrase : ∀ n, (encodeLatin1 (phrase n)).isSome)
    (wrapper : Bool) (call : Call) (hfinish : call.nativeAnswer.finishes = true) :
    (∃ r chunks, (runWsgi int (wsgiApp phrase wrapper call)).streamed = some (r, chunks, false) ∧
      r.statusCode = call.response.statusCode ∧ r.headers = call.response.headers ∧
      chunks.flatten = call.nativeBody) ↔ call.Outlives := by
  rw [turned_iff_respond hint hphrase wrapper call call.nativeBody]
  exact respond_iff wrapper hfinish

theorem asciiInt_decimal (n : Nat) : asciiInt (decodeLatin1 (decimalText n)) = some n := by
  have hascii : (decimalText n).all (fun b => b.toNat < 128) = true := by
    apply List.all_eq_true.2
    intro b hb
    have hle : b.toNat ≤ 57 := UInt8.le_iff_toNat_le.1 (Ascii.isDigit_iff.1 (mem_decimalText hb)).2
    exact decide_eq_true (by omega)
  rw [asciiInt, encodeAscii_decodeLatin1 hascii, Option.bind_some,
    (Compress.numeral_decimalText n).int_eq,
    Option.bind_some, if_pos (Int.natCast_nonneg n), Int.toNat_natCast]

/-- A static file is closed when its handler returns, so it does not come through. -/
theorem turned_iff_outlives_staticFile :
    ¬∃ r chunks,
      (runWsgi asciiInt
        (wsgiApp (fun _ => []) true (staticFile ⟨200, [], []⟩ [1, 2, 3] 0 2))).streamed =
      some (r, chunks, false) ∧ r.statusCode = 200 ∧ r.headers = [] ∧ chunks.flatten = [1, 2] := by
  intro h
  have hiff := turned_iff_outlives asciiInt (fun _ => []) asciiInt_decimal (fun _ => rfl) true
    (staticFile ⟨200, [], []⟩ [1, 2, 3] 0 2) rfl
  have houtlives := hiff.1 h
  exact houtlives List.mem_cons_self

end LocalPost.Http.Wsgi
