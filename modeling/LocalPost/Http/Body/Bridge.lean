import LocalPost.Core.Handover
import LocalPost.Core.Lts
import LocalPost.Http.Types
import Mathlib.Data.List.Forall2

/-!
# From a pump to `receive(size)`

On ASGI and RSGI a task of its own, the pump, takes the body from the server and sends it, chunk by
chunk, through a stream without a buffer. `receive(size)` takes a chunk from the stream, returns
what fits and keeps the rest for the next call. The two tasks run in any order.

The pump is a parameter here (`Source`, `Feeds`); the handler calls `receive` with any sizes, one
call after the other. `Feeds.bridges`: in every run the results are the body in pieces, then `b""`
for ever, and no call is left without a result when the body is complete.
-/

set_option autoImplicit false

namespace LocalPost.Http

open LocalPost.Core

/-- What the pump does next: it goes on without touching the stream, sends a chunk, closes the
sending end, or does nothing (it waits for the server, or has returned). -/
inductive Action (κ : Type) where
  | goes (k : κ)
  | sends (chunk : Bytes) (k : κ)
  | closes (k : κ)
  | stays
  deriving DecidableEq, Repr

/-- A pump, by the places where it can be. -/
abbrev Source (κ : Type) := κ → Action κ

/-- What `receive` keeps from one call to the next. -/
structure Reader where
  streamEof : Bool
  streamLeftover : Bytes
  deriving DecidableEq, Repr

/-- A chunk is returned as far as it fits. -/
def Reader.keep (size : Nat) (chunk : Bytes) (r : Reader) : Bytes × Reader :=
  if chunk.length ≤ size then (chunk, r)
  else (chunk.take size, { r with streamLeftover := chunk.drop size })

/-- The pump, the stream, the reader, the sizes of the calls that have not returned, and the results
of those that have. -/
structure Bridge (κ : Type) where
  pump : κ
  stream : Handover Bytes
  reader : Reader
  calls : List Nat
  results : List Bytes
  deriving DecidableEq, Repr

/-- Who runs. -/
inductive Party where
  | pump
  | reader
  deriving DecidableEq, Repr

namespace Bridge

variable {κ : Type}

/-- A call returns. -/
def answer (calls : List Nat) (result : Bytes × Reader) (stream : Handover Bytes) (b : Bridge κ) :
    Bridge κ :=
  ⟨b.pump, stream, result.2, calls, b.results ++ [result.1]⟩

/-- `await self._body_stream.receive()` has returned or raised `EndOfStream`. -/
def got (size : Nat) (calls : List Nat) (receipt : Receipt Bytes) (stream : Handover Bytes)
    (b : Bridge κ) : Bridge κ :=
  match receipt with
  | .item chunk => b.answer calls (b.reader.keep size chunk) stream
  | .endOfStream => b.answer calls ([], { b.reader with streamEof := true }) stream

/-- `receive(size)`, from its beginning or from where it waits for the stream. -/
def receive (size : Nat) (calls : List Nat) (b : Bridge κ) : Option (Bridge κ) :=
  -- It waits in `await self._body_stream.receive()`.
  if b.stream.inside then b.stream.resume.map fun r => b.got size calls r.1 r.2
  else if b.reader.streamLeftover ≠ [] then
    if b.reader.streamLeftover.length ≤ size then
      some (b.answer calls
        (b.reader.streamLeftover, { b.reader with streamLeftover := [] }) b.stream)
    else
      some (b.answer calls (b.reader.streamLeftover.take size,
        { b.reader with streamLeftover := b.reader.streamLeftover.drop size }) b.stream)
  else if b.reader.streamEof then some (b.answer calls ([], b.reader) b.stream)
  else
    match b.stream.receive with
    | (some receipt, stream) => some (b.got size calls receipt stream)
    | (none, stream) => some { b with stream := stream }

/-- One step of the pump or of the handler. The pump is blocked while its item is offered. -/
def step (source : Source κ) (b : Bridge κ) : Party → Option (Bridge κ)
  | .pump =>
    if b.stream.offered.isSome then none
    else
      match source b.pump with
      | .goes k => some { b with pump := k }
      | .sends chunk k => some { b with pump := k, stream := b.stream.send chunk }
      | .closes k => some { b with pump := k, stream := b.stream.close }
      | .stays => none
  | .reader =>
    match b.calls with
    | [] => none
    | size :: calls => b.receive size calls

/-- The two tasks at the beginning. -/
def start (k : κ) (sizes : List Nat) : Bridge κ := ⟨k, .new, ⟨false, []⟩, sizes, []⟩

/-- The two tasks in any order. -/
def system (source : Source κ) (k : κ) (sizes : List Nat) : Lts (Bridge κ) Party where
  init := fun b => b = start k sizes
  step := step source

end Bridge

/-- The results of calls with these sizes against the body: `ends` says whether the body is
complete. No result is larger than asked for; up to the first `b""` the results are the whole body,
and nothing but `b""` comes after it. -/
structure Delivered (body : Bytes) (ends : Bool) (sizes : List Nat) (results : List Bytes) :
    Prop where
  within : List.Forall₂ (fun chunk size => chunk.length ≤ size) results (sizes.take results.length)
  begun : results.flatten <+: body
  whole : [] ∈ results → ends = true ∧ (results.takeWhile (· ≠ [])).flatten = body
  after : ∀ chunk ∈ results.dropWhile (· ≠ []), chunk = []

/-- In every run the results are as they should be; every run comes to an end, and when the body is
complete all the calls have returned there, with `b""` among the results if there were more calls
than bytes. -/
structure Bridges {κ : Type} (source : Source κ) (k : κ) (body : Bytes) (ends : Bool)
    (sizes : List Nat) : Prop where
  delivered : ∀ b, (Bridge.system source k sizes).Reachable b → Delivered body ends sizes b.results
  bounded : ∃ n, ∀ as b, (Bridge.system source k sizes).exec (Bridge.start k sizes) as = some b →
    as.length ≤ n
  answered : ends = true → ∀ b, (Bridge.system source k sizes).Reachable b →
    (∀ p, b.step source p = none) →
      b.results.length = sizes.length ∧ (body.length < sizes.length → [] ∈ b.results)

/-- What holds of a place of a pump by what it does there: `out` is the body that it will still
send, `ends` says whether it will close the stream, `done` that it has. -/
def Feeding {κ : Type} (done : κ → Bool) (out : κ → Bytes) (ends : κ → Bool) (rank : κ → Nat)
    (k : κ) : Action κ → Prop
  | .goes k' => rank k' < rank k ∧ done k' = done k ∧ out k' = out k ∧ ends k' = ends k
  | .sends chunk k' =>
    rank k' < rank k ∧ done k = false ∧ done k' = false ∧ chunk ≠ [] ∧ out k = chunk ++ out k' ∧
      ends k' = ends k
  | .closes k' => rank k' < rank k ∧ done k = false ∧ done k' = true ∧
    out k' = out k ∧ ends k' = ends k
  | .stays => done k = false → ends k = false

/-- What a pump does over its run. -/
structure Feeds {κ : Type} (source : Source κ) (done : κ → Bool) (out : κ → Bytes) (ends : κ → Bool)
    (rank : κ → Nat) : Prop where
  place : ∀ k, Feeding done out ends rank k (source k)
  done : ∀ k, done k = true → out k = [] ∧ ends k = true

/-! ## What a step preserves -/

/-- What of a chunk is returned and what is kept. -/
theorem Reader.keep_spec {size : Nat} {chunk : Bytes} {r : Reader} (hsize : 0 < size)
    (hchunk : chunk ≠ []) (hr : r.streamLeftover = []) :
    (r.keep size chunk).1 ≠ [] ∧ (r.keep size chunk).1.length ≤ size ∧
      (r.keep size chunk).1 ++ (r.keep size chunk).2.streamLeftover = chunk ∧
      (r.keep size chunk).2.streamEof = r.streamEof := by
  unfold Reader.keep
  split
  · rename_i hle
    exact ⟨hchunk, hle, by rw [hr, List.append_nil], rfl⟩
  · refine ⟨?_, List.length_take_le _ _, List.take_append_drop _ _, rfl⟩
    rw [ne_eq, List.take_eq_nil_iff, not_or]
    exact ⟨Nat.ne_of_gt hsize, hchunk⟩

namespace Bridge

variable {κ : Type} {source : Source κ} {done : κ → Bool} {out : κ → Bytes} {ends : κ → Bool}
  {rank : κ → Nat}

/-- The bytes that have not been returned. -/
def toCome (out : κ → Bytes) (b : Bridge κ) : Bytes :=
  b.reader.streamLeftover ++ b.stream.items.flatten ++ out b.pump

/-- What holds between two steps, for a body `whole` that is complete or not. -/
structure Inv (done : κ → Bool) (out : κ → Bytes) (ends : κ → Bool) (whole : Bytes)
    (complete : Bool) (sizes : List Nat) (b : Bridge κ) : Prop where
  ordered : b.stream.Ordered
  flow : b.results.flatten ++ b.toCome out = whole
  pump : done b.pump = b.stream.closed
  ending : ends b.pump = complete
  items : ∀ chunk ∈ b.stream.items, chunk ≠ []
  inside : b.stream.inside = true →
    b.reader.streamLeftover = [] ∧ b.reader.streamEof = false ∧ b.calls ≠ []
  eof : b.reader.streamEof = true →
    b.reader.streamLeftover = [] ∧ b.stream.closed = true ∧ b.stream.items = []
  calls : ∃ answered, sizes = answered ++ b.calls ∧
    List.Forall₂ (fun chunk size => chunk.length ≤ size) b.results answered
  shape : ∃ chunks n, b.results = chunks ++ List.replicate n [] ∧ (∀ chunk ∈ chunks, chunk ≠ []) ∧
    (0 < n → b.reader.streamEof = true)

namespace Inv

variable {whole : Bytes} {complete : Bool} {sizes : List Nat} {b : Bridge κ}

theorem start (k : κ) (sizes : List Nat) (hdone : done k = false) :
    Inv done out ends (out k) (ends k) sizes (Bridge.start k sizes) where
  ordered := .new
  flow := rfl
  pump := hdone
  ending := rfl
  items := by simp [Bridge.start, Handover.new, Handover.items]
  inside h := by cases h
  eof h := by cases h
  calls := ⟨[], rfl, .nil⟩
  shape := ⟨[], 0, rfl, by simp, fun h => absurd h (Nat.lt_irrefl 0)⟩

/-- The next bytes are returned. -/
theorem answers (h : Inv done out ends whole complete sizes b) {size : Nat} {calls : List Nat}
    (hcalls : b.calls = size :: calls) {chunk : Bytes} {reader : Reader} {stream : Handover Bytes}
    (hchunk : chunk ≠ []) (hsize : chunk.length ≤ size) (heof : b.reader.streamEof = false)
    (heof' : reader.streamEof = false) (hordered : stream.Ordered)
    (hclosed : stream.closed = b.stream.closed) (hinside : stream.inside = false)
    (hitems : ∀ x ∈ stream.items, x ∈ b.stream.items)
    (hflow : b.reader.streamLeftover ++ b.stream.items.flatten =
      chunk ++ (reader.streamLeftover ++ stream.items.flatten)) :
    Inv done out ends whole complete sizes (b.answer calls (chunk, reader) stream) where
  ordered := hordered
  flow := by
    have hrest : b.toCome out =
        chunk ++ (reader.streamLeftover ++ stream.items.flatten) ++ out b.pump := by
      rw [toCome, hflow]
    rw [← h.flow, hrest, toCome, answer, List.flatten_append]
    simp only [List.flatten_cons, List.flatten_nil, List.append_nil, List.append_assoc]
  pump := h.pump.trans hclosed.symm
  ending := h.ending
  items x hx := h.items x (hitems x hx)
  inside hin := by
    rw [answer, hinside] at hin
    cases hin
  eof he := by
    rw [answer, heof'] at he
    cases he
  calls := by
    obtain ⟨answered, hsizes, hanswered⟩ := h.calls
    refine ⟨answered ++ [size], ?_, List.rel_append hanswered (.cons hsize .nil)⟩
    rw [hsizes, hcalls, List.append_assoc]
    rfl
  shape := by
    obtain ⟨chunks, n, hresults, hchunks, hn⟩ := h.shape
    -- No `b""` has been returned yet.
    cases n with
    | succ n =>
      rw [hn (Nat.succ_pos n)] at heof
      cases heof
    | zero =>
      refine ⟨chunks ++ [chunk], 0, ?_, ?_, fun h => absurd h (Nat.lt_irrefl 0)⟩
      · rw [answer, hresults]
        simp
      · intro x hx
        rw [List.mem_append, List.mem_singleton] at hx
        cases hx with
        | inl hx => exact hchunks x hx
        | inr hx => exact hx ▸ hchunk

/-- `b""` is returned: nothing is left, and the stream is closed. -/
theorem finishes (h : Inv done out ends whole complete sizes b) {size : Nat} {calls : List Nat}
    (hcalls : b.calls = size :: calls) {reader : Reader} {stream : Handover Bytes}
    (hreader : reader = ⟨true, []⟩) (hleft : b.reader.streamLeftover = [])
    (hitems : b.stream.items = []) (hclosed : b.stream.closed = true) (hordered : stream.Ordered)
    (hclosed' : stream.closed = true) (hitems' : stream.items = [])
    (hinside : stream.inside = false) :
    Inv done out ends whole complete sizes (b.answer calls ([], reader) stream) := by
  subst hreader
  -- The answer is empty: no bytes have moved, the pump has ended and the queue is empty.
  constructor
  case ordered => exact hordered
  case flow =>
    have hrest : b.toCome out = out b.pump := by
      rw [toCome, hleft, hitems]
      rfl
    rw [← h.flow, hrest, toCome, answer, hitems', List.flatten_append]
    simp
  case pump => exact h.pump.trans (hclosed.trans hclosed'.symm)
  case ending => exact h.ending
  case items =>
    intro x hx
    rw [answer, hitems'] at hx
    cases hx
  case inside =>
    intro hin
    rw [answer, hinside] at hin
    cases hin
  case eof => exact fun _ => ⟨rfl, hclosed', hitems'⟩
  case calls =>
    obtain ⟨answered, hsizes, hanswered⟩ := h.calls
    refine ⟨answered ++ [size], ?_, List.rel_append hanswered (.cons (Nat.zero_le _) .nil)⟩
    rw [hsizes, hcalls, List.append_assoc]
    rfl
  case shape =>
    obtain ⟨chunks, n, hresults, hchunks, -⟩ := h.shape
    -- one more empty answer behind those that there are
    refine ⟨chunks, n + 1, ?_, hchunks, fun _ => rfl⟩
    rw [answer, hresults, List.append_assoc, List.replicate_succ']

/-- A chunk that the stream has given is returned as far as it fits. -/
theorem got_item (h : Inv done out ends whole complete sizes b) {size : Nat} {calls : List Nat}
    (hcalls : b.calls = size :: calls) (hsize : 0 < size) {chunk : Bytes} {stream : Handover Bytes}
    (hleft : b.reader.streamLeftover = []) (heof : b.reader.streamEof = false)
    (hordered : stream.Ordered) (hitems : b.stream.items = chunk :: stream.items)
    (hclosed : stream.closed = b.stream.closed) (hinside : stream.inside = false) :
    Inv done out ends whole complete sizes (b.got size calls (.item chunk) stream) := by
  have hchunk : chunk ≠ [] := h.items chunk (by rw [hitems]; exact List.mem_cons_self)
  obtain ⟨hne, hle, hkeep, hkeepEof⟩ := Reader.keep_spec hsize hchunk hleft
  apply h.answers hcalls hne hle heof (hkeepEof.trans heof) hordered hclosed hinside
  · intro x hx
    rw [hitems]
    exact List.mem_cons_of_mem chunk hx
  · rw [hleft, hitems, ← List.append_assoc, hkeep]
    rfl

/-- `EndOfStream`. -/
theorem got_end (h : Inv done out ends whole complete sizes b) {size : Nat} {calls : List Nat}
    (hcalls : b.calls = size :: calls) {stream : Handover Bytes}
    (hleft : b.reader.streamLeftover = []) (hordered : stream.Ordered)
    (hclosed : b.stream.closed = true) (hitems : b.stream.items = []) (hitems' : stream.items = [])
    (hclosed' : stream.closed = true) (hinside : stream.inside = false) :
    Inv done out ends whole complete sizes (b.got size calls .endOfStream stream) := by
  have hreader : ({ b.reader with streamEof := true } : Reader) = ⟨true, []⟩ :=
    congrArg (Reader.mk true) hleft
  exact h.finishes hcalls hreader hleft hitems hclosed hordered hclosed' hitems' hinside

/-- A step of the handler. -/
theorem receive (h : Inv done out ends whole complete sizes b) {size : Nat} {calls : List Nat}
    (hcalls : b.calls = size :: calls) (hsize : 0 < size) {t : Bridge κ}
    (ht : b.receive size calls = some t) : Inv done out ends whole complete sizes t := by
  rw [Bridge.receive] at ht
  split at ht
  · rename_i hinside
    obtain ⟨hleft, heof, -⟩ := h.inside hinside
    rcases h.ordered.resume hinside with
      ⟨chunk, stream, hresume, hordered, hitems, hclosed, hinside'⟩ |
        ⟨stream, hresume, hordered, hclosed, hitems, hitems', hclosed', hinside'⟩ | ⟨hresume, -, -⟩
    · rw [hresume] at ht
      cases ht
      exact h.got_item hcalls hsize hleft heof hordered hitems hclosed hinside'
    · rw [hresume] at ht
      cases ht
      exact h.got_end hcalls hleft hordered hclosed hitems hitems' hclosed' hinside'
    · rw [hresume] at ht
      cases ht
  · rename_i hinside
    rw [Bool.not_eq_true] at hinside
    split at ht
    · rename_i hleft
      have heof : b.reader.streamEof = false := by
        cases he : b.reader.streamEof with
        | false => rfl
        | true => exact absurd (h.eof he).1 hleft
      split at ht
      · rename_i hle
        cases ht
        exact h.answers hcalls hleft hle heof heof h.ordered rfl hinside (fun x hx => hx) rfl
      · cases ht
        have htake : b.reader.streamLeftover.take size ≠ [] := by
          rw [ne_eq, List.take_eq_nil_iff, not_or]
          exact ⟨Nat.ne_of_gt hsize, hleft⟩
        have heof' : ({ b.reader with
            streamLeftover := b.reader.streamLeftover.drop size } : Reader).streamEof =
              false := heof
        apply h.answers hcalls htake (List.length_take_le _ _) heof heof' h.ordered rfl hinside
          (fun x hx => hx)
        rw [← List.append_assoc, List.take_append_drop]
    · rename_i hleft
      rw [not_not] at hleft
      split at ht
      · rename_i heof
        cases ht
        obtain ⟨-, hclosed, hitems⟩ := h.eof heof
        have hreader : b.reader = ⟨true, []⟩ := by rw [← hleft, ← heof]
        exact h.finishes hcalls hreader hleft hitems hclosed h.ordered hclosed hitems hinside
      · rename_i heof
        rw [Bool.not_eq_true] at heof
        rcases h.ordered.receive hinside with
          ⟨chunk, stream, hreceive, hordered, hitems, hclosed, hinside'⟩ |
            ⟨hreceive, hclosed, hitems⟩ | ⟨hreceive, hordered, hitems, hclosed, -⟩
        · rw [hreceive] at ht
          cases ht
          exact h.got_item hcalls hsize hleft heof hordered hitems hclosed hinside'
        · rw [hreceive] at ht
          cases ht
          exact h.got_end hcalls hleft h.ordered hclosed hitems hitems hclosed hinside
        · rw [hreceive] at ht
          cases ht
          -- the call begins to wait
          exact ⟨hordered, h.flow, h.pump, h.ending, h.items,
            fun _ => ⟨hleft, heof, by rw [hcalls]; exact List.cons_ne_nil _ _⟩,
              h.eof, h.calls, h.shape⟩

/-- A step of the pump. -/
theorem pump_step (hfeeds : Feeds source done out ends rank)
    (h : Inv done out ends whole complete sizes b) {t : Bridge κ}
    (ht : b.step source .pump = some t) : Inv done out ends whole complete sizes t := by
  rw [Bridge.step] at ht
  split at ht
  · cases ht
  · rename_i hfree
    rw [Option.not_isSome_iff_eq_none] at hfree
    split at ht
    · rename_i k hsource
      cases ht
      obtain ⟨-, hdone, hout, hends⟩ := hsource ▸ hfeeds.place b.pump
      exact ⟨h.ordered, by rw [← h.flow, toCome, hout, toCome], hdone.trans h.pump,
        hends.trans h.ending, h.items, h.inside, h.eof, h.calls, h.shape⟩
    · rename_i chunk k hsource
      cases ht
      obtain ⟨-, hdone, hdone', hchunk, hout, hends⟩ := hsource ▸ hfeeds.place b.pump
      have hopen : b.stream.closed = false := h.pump.symm.trans hdone
      obtain ⟨hordered, hitems, hclosed, hinside⟩ := h.ordered.send (x := chunk) hfree hopen
      constructor
      case ordered => exact hordered
      -- The chunk leaves what the pump has still to give, and joins what is in flight.
      case flow =>
        rw [← h.flow, toCome, hitems, List.flatten_append, toCome, hout]
        simp
      case pump => exact hdone'.trans hclosed.symm
      case ending => exact hends.trans h.ending
      case items =>
        intro x hx
        rw [hitems, List.mem_append, List.mem_singleton] at hx
        cases hx with
        | inl hx => exact h.items x hx
        | inr hx => exact hx ▸ hchunk
      case inside => exact fun hin => h.inside (hinside ▸ hin)
      case eof =>
        intro he
        rw [(h.eof he).2.1] at hopen
        cases hopen
      case calls => exact h.calls
      case shape => exact h.shape
    · -- The end of the stream is no item of it, so nothing comes between it and the last chunk.
      rename_i k hsource
      cases ht
      obtain ⟨-, -, hdone, hout, hends⟩ := hsource ▸ hfeeds.place b.pump
      refine ⟨h.ordered.close hfree, ?_, hdone, hends.trans h.ending, h.items, h.inside,
        fun he => ⟨(h.eof he).1, rfl, (h.eof he).2.2⟩, h.calls, h.shape⟩
      rw [← h.flow, toCome, hout, toCome]
      rfl
    · cases ht

/-- Every turn of the pump or the reader keeps what was read in its order. -/
theorem step (hfeeds : Feeds source done out ends rank) (hsizes : ∀ size ∈ sizes, 0 < size)
    (h : Inv done out ends whole complete sizes b) {p : Party} {t : Bridge κ}
    (ht : b.step source p = some t) : Inv done out ends whole complete sizes t := by
  cases p with
  | pump => exact h.pump_step hfeeds ht
  | reader =>
    obtain ⟨answered, heq, -⟩ := h.calls
    rw [Bridge.step] at ht
    split at ht
    · cases ht
    · rename_i size calls hcalls
      apply h.receive hcalls _ ht
      apply hsizes
      rw [heq, hcalls]
      exact List.mem_append_right _ List.mem_cons_self

/-- The results are the chunks in order, and then `b""` for ever. -/
theorem takeWhile_results (h : Inv done out ends whole complete sizes b) :
    ∃ chunks n, b.results = chunks ++ List.replicate n [] ∧ (∀ chunk ∈ chunks, chunk ≠ []) ∧
      b.results.takeWhile (· ≠ []) = chunks ∧ b.results.dropWhile (· ≠ []) = List.replicate n [] ∧
      (0 < n → b.reader.streamEof = true) := by
  obtain ⟨chunks, n, hresults, hchunks, hn⟩ := h.shape
  have hall : ∀ chunk ∈ chunks, decide (chunk ≠ []) = true :=
    fun chunk hchunk => decide_eq_true (hchunks chunk hchunk)
  refine ⟨chunks, n, hresults, hchunks, ?_, ?_, hn⟩
  · rw [hresults, List.takeWhile_append_of_pos hall, List.takeWhile_replicate]
    simp
  · rw [hresults, List.dropWhile_append_of_pos hall, List.dropWhile_replicate]
    simp

/-- What the reader has got is a beginning of the body, and all of it at the end of the calls. -/
theorem delivered (hfeeds : Feeds source done out ends rank)
    (h : Inv done out ends whole complete sizes b) : Delivered whole complete sizes b.results := by
  obtain ⟨chunks, n, hresults, hchunks, htake, hdrop, hn⟩ := h.takeWhile_results
  constructor
  case within =>
    obtain ⟨answered, hsizes, hanswered⟩ := h.calls
    -- each answer has at most the size that it was asked for
    rw [hsizes, hanswered.length_eq, List.take_left]
    exact hanswered
  case begun => exact ⟨_, h.flow⟩
  case whole =>
    intro hmem
    -- an empty answer comes only behind the end of the body
    have hpos : 0 < n := by
      rw [hresults, List.mem_append] at hmem
      apply Nat.pos_of_ne_zero
      rintro rfl
      cases hmem with
      | inl hmem => exact hchunks [] hmem rfl
      | inr hmem => cases hmem
    obtain ⟨hleft, hclosed, hitems⟩ := h.eof (hn hpos)
    obtain ⟨hout, hends⟩ := hfeeds.done b.pump (h.pump.trans hclosed)
    refine ⟨h.ending.symm.trans hends, ?_⟩
    have hflow := h.flow
    rw [toCome, hleft, hitems, hout, hresults, List.flatten_append] at hflow
    rw [htake]
    simpa using hflow
  -- behind the first empty answer there are only empty ones
  case after =>
    intro chunk hchunk
    rw [hdrop] at hchunk
    exact (List.mem_replicate.1 hchunk).2

/-- When nothing can go on and the body is complete, all the calls have returned. -/
theorem answered (hfeeds : Feeds source done out ends rank)
    (h : Inv done out ends whole true sizes b) (hstuck : ∀ p, b.step source p = none) :
    b.calls = [] := by
  cases hcalls : b.calls with
  | nil => rfl
  | cons size calls =>
    exfalso
    have hreader := hstuck .reader
    rw [Bridge.step, hcalls] at hreader
    change b.receive size calls = none at hreader
    rw [Bridge.receive] at hreader
    -- a call that waits gets an item, sees the closing, or waits for a free pump
    split at hreader
    · rename_i hinside
      rcases h.ordered.resume hinside with
        ⟨chunk, stream, hresume, -⟩ | ⟨stream, hresume, -⟩ | ⟨-, hclosed, hfree⟩
      · rw [hresume] at hreader
        cases hreader
      · rw [hresume] at hreader
        cases hreader
      · -- the call waits for a pump that is not blocked
        have hpump := hstuck .pump
        rw [Bridge.step, hfree, if_neg (by simp)] at hpump
        split at hpump
        · cases hpump
        · cases hpump
        · cases hpump
        · rename_i hsource
          -- a pump that cannot go on has not all of its source yet, but the source is complete
          have hstays : Feeding done out ends rank b.pump .stays := hsource ▸ hfeeds.place b.pump
          have hends := hstays (h.pump.trans hclosed)
          rw [h.ending] at hends
          cases hends
    -- a call that does not wait has something to hand out or starts to wait
    · split at hreader
      · split at hreader <;> cases hreader
      · split at hreader
        · cases hreader
        · split at hreader <;> cases hreader

end Inv

/-- Two for each step of the pump and for each call, and one for a call that has not begun to
wait. -/
def left (rank : κ → Nat) (b : Bridge κ) : Nat :=
  2 * b.calls.length + 2 * rank b.pump + (!b.stream.waiting).toNat

/-- A receipt leaves less to do. -/
theorem left_got (rank : κ → Nat) {b : Bridge κ} {size : Nat} {calls : List Nat}
    (hcalls : b.calls = size :: calls) (receipt : Receipt Bytes) (stream : Handover Bytes) :
    (b.got size calls receipt stream).left rank < b.left rank := by
  have hshape : ∃ result, b.got size calls receipt stream = b.answer calls result stream := by
    cases receipt with
    | item chunk => exact ⟨_, rfl⟩
    | endOfStream => exact ⟨_, rfl⟩
  obtain ⟨result, hresult⟩ := hshape
  rw [hresult, left, left, hcalls, List.length_cons]
  simp only [answer]
  have hbit := Bool.toNat_le (!stream.waiting)
  omega

/-- Every step takes something from what is left to do. -/
theorem left_step {whole : Bytes} {complete : Bool} {sizes : List Nat} {b t : Bridge κ} {p : Party}
    (hfeeds : Feeds source done out ends rank) (h : Inv done out ends whole complete sizes b)
    (ht : b.step source p = some t) : t.left rank < b.left rank := by
  cases p with
  | pump =>
    rw [step] at ht
    split at ht
    · cases ht
    · split at ht
      · rename_i k hsource
        cases ht
        obtain ⟨hrank, -⟩ := hsource ▸ hfeeds.place b.pump
        simp only [left]
        omega
      · rename_i chunk k hsource
        cases ht
        obtain ⟨hrank, -⟩ := hsource ▸ hfeeds.place b.pump
        simp only [left]
        have hbit := Bool.toNat_le (!(b.stream.send chunk).waiting)
        omega
      · rename_i k hsource
        cases ht
        obtain ⟨hrank, -⟩ := hsource ▸ hfeeds.place b.pump
        simp only [left, Handover.close]
        omega
      · cases ht
  | reader =>
    rw [step] at ht
    split at ht
    · cases ht
    · rename_i size calls hcalls
      have hanswer : ∀ result : Bytes × Reader,
          (b.answer calls result b.stream).left rank < b.left rank := by
        intro result
        simp only [left, answer, hcalls, List.length_cons]
        omega
      rw [receive] at ht
      split at ht
      -- A reader inside the channel gets what is handed over to it.
      · obtain ⟨r, -, rfl⟩ := Option.map_eq_some_iff.1 ht
        exact left_got rank hcalls r.1 r.2
      · rename_i hinside
        rw [Bool.not_eq_true] at hinside
        split at ht
        · split at ht <;> cases ht <;> exact hanswer _
        · split at ht
          · cases ht
            exact hanswer _
          · rcases h.ordered.receive hinside with
              ⟨chunk, stream, hreceive, -⟩ | ⟨hreceive, -⟩ | ⟨hreceive, -, -, -, hwaiting⟩
            · rw [hreceive] at ht
              cases ht
              exact left_got rank hcalls _ _
            · rw [hreceive] at ht
              cases ht
              exact left_got rank hcalls _ _
            · rw [hreceive] at ht
              cases ht
              -- It begins to wait, and the measure counts a reader that does not.
              simp only [left, hwaiting, Bool.not_true, Bool.not_false,
                Bool.toNat_true, Bool.toNat_false]
              omega

end Bridge

/-- Without `b""` every result takes at least one byte. -/
theorem length_le_flatten {results : List Bytes} (h : [] ∉ results) :
    results.length ≤ results.flatten.length := by
  induction results with
  | nil => exact Nat.le_refl 0
  | cons chunk results ih =>
    rw [List.mem_cons, not_or] at h
    have hchunk : 0 < chunk.length := List.length_pos_iff.2 (Ne.symm h.1)
    have hrest := ih h.2
    rw [List.flatten_cons, List.length_append, List.length_cons]
    omega

/-- A pump that sends a body passes it on to the handler. -/
theorem Feeds.bridges {κ : Type} {source : Source κ} {done : κ → Bool} {out : κ → Bytes}
    {ends : κ → Bool} {rank : κ → Nat} (hfeeds : Feeds source done out ends rank) {k : κ}
    (hk : done k = false) {sizes : List Nat} (hsizes : ∀ size ∈ sizes, 0 < size) :
    Bridges source k (out k) (ends k) sizes := by
  -- One step keeps the invariant; the three parts follow from it.
  have hstep : ∀ b p t, Bridge.Inv done out ends (out k) (ends k) sizes b →
      (Bridge.system source k sizes).step b p = some t →
        Bridge.Inv done out ends (out k) (ends k) sizes t :=
    fun b p t h ht => h.step hfeeds hsizes ht
  have hinv : ∀ b, (Bridge.system source k sizes).Reachable b →
      Bridge.Inv done out ends (out k) (ends k) sizes b := by
    intro b hb
    apply Lts.invariant _ hstep hb
    rintro s rfl
    exact .start k sizes hk
  constructor
  case delivered => exact fun b hb => (hinv b hb).delivered hfeeds
  case bounded =>
    -- the rank counts the calls that are left, and what the pump still has to do
    refine ⟨(Bridge.start k sizes).left rank, fun as b hrun => ?_⟩
    have hlength := Lts.length_add_rank_le (Bridge.left rank) hstep
      (fun b p t h ht => Bridge.left_step hfeeds h ht) (.start k sizes hk) hrun
    omega
  case answered =>
    intro hends b hb hstuck
    have h := hinv b hb
    have hcalls : b.calls = [] := (hends ▸ h).answered hfeeds hstuck
    obtain ⟨answered, hsizes', hanswered⟩ := h.calls
    rw [hcalls, List.append_nil] at hsizes'
    have hlength : b.results.length = sizes.length := by rw [hsizes', hanswered.length_eq]
    refine ⟨hlength, fun hmore => ?_⟩
    by_contra hnone
    -- every answer but the last has a byte, so there are no more of them than bytes
    have hbytes := length_le_flatten hnone
    have hprefix := (h.delivered hfeeds).begun.length_le
    omega

end LocalPost.Http
