import LocalPost.Core.ListEntries
import LocalPost.Core.StreamCoding
import LocalPost.Http.Compress.Ctx

/-!
# Compressing a stream

`_compress_stream` is a generator between the chunks of the handler and the loop that sends them.
Its run is the list of what it does in order: it asks for the next chunk, or emits bytes.

`compressStream_transparent`: what it emits decodes to the chunks, and whenever it asks for a chunk
the output so far decodes to all the chunks that it was given.
-/

set_option autoImplicit false

namespace LocalPost.Http.Compress

open LocalPost.Core
open LocalPost.Http.Writer (Response)

universe u

/-- What the generator does: it asks for the next chunk, or yields. -/
inductive Event where
  | request
  | emit (b : Bytes)
  deriving DecidableEq, Repr

/-- The chunks that come out. -/
def yields (events : List Event) : List Bytes :=
  events.filterMap fun event =>
    match event with
    | .request => none
    | .emit b => some b

/-- The bytes that were emitted. -/
def emitted (events : List Event) : Bytes := (yields events).flatten

/-- The chunks that were asked for. -/
def requests (events : List Event) : Nat := events.count .request

variable {σ : Type u} (enc : StreamEncoder σ)

/-- `if out: yield out`. -/
def yieldNonempty (out : Bytes) : List Event := if out ≠ [] then [.emit out] else []

/-- The body of the loop. -/
def block (chunk : Bytes) (s : σ) : List Event × σ :=
  -- Nothing is held back between two chunks, so the empty one overtakes nothing.
  if chunk = [] then ([.emit chunk], s)
  else
    let (data, s) := enc.compress chunk s
    let (flushed, s) := enc.flush s
    (yieldNonempty (data ++ flushed), s)

/-- `_compress_stream` from a state of its encoder: the loop over the chunks, and what follows when
the source has no more. -/
def compressFrom : List Bytes → σ → List Event
  | [], s => .request :: yieldNonempty (enc.finish s)
  | chunk :: chunks, s =>
    .request :: ((block enc chunk s).1 ++ compressFrom chunks (block enc chunk s).2)

/-- `_compress_stream` with a new encoder. -/
def compressStream (chunks : List Bytes) : List Event := compressFrom enc chunks enc.start

@[simp] theorem emitted_append (events events' : List Event) :
    emitted (events ++ events') = emitted events ++ emitted events' := by
  rw [emitted, yields, List.filterMap_append, List.flatten_append]
  rfl

@[simp] theorem emitted_request (events : List Event) :
    emitted (.request :: events) = emitted events := rfl

@[simp] theorem emitted_yieldNonempty (out : Bytes) : emitted (yieldNonempty out) = out := by
  rw [yieldNonempty]
  split
  · exact List.append_nil out
  · rename_i hempty
    exact (not_not.1 hempty).symm

theorem request_not_mem_yieldNonempty (out : Bytes) : Event.request ∉ yieldNonempty out := by
  rw [yieldNonempty]
  split <;> simp

/-- The body of the loop asks for nothing. -/
theorem request_not_mem_block (chunk : Bytes) (s : σ) : Event.request ∉ (block enc chunk s).1 := by
  rw [block]
  split
  · simp
  · exact request_not_mem_yieldNonempty _

variable {enc} {decode decodeAll : Bytes → Option Bytes}

/-- After a chunk the decoder has it too. -/
theorem flushed_block (henc : enc.Lawful decode decodeAll) {s : σ} {out data : Bytes}
    (h : enc.Flushed decode s out data) (chunk : Bytes) :
    enc.Flushed decode (block enc chunk s).2 (out ++ emitted (block enc chunk s).1)
      (data ++ chunk) := by
  rw [block]
  by_cases hempty : chunk = []
  · rw [if_pos hempty, hempty, List.append_nil]
    exact (List.append_nil out).symm ▸ h
  · rw [if_neg hempty]
    dsimp only
    rw [emitted_yieldNonempty]
    exact h.block henc chunk

/-- From a state that holds nothing back: the whole output decodes to the chunks, and at each
request the output so far to the chunks so far. -/
theorem compressFrom_transparent (henc : enc.Lawful decode decodeAll) (chunks : List Bytes) {s : σ}
    {out data : Bytes} (h : enc.Flushed decode s out data) :
    decodeAll (out ++ emitted (compressFrom enc chunks s)) = some (data ++ chunks.flatten) ∧
      ∀ before after, compressFrom enc chunks s = before ++ .request :: after →
        decode (out ++ emitted before) =
          some (data ++ (chunks.take (requests before)).flatten) := by
  induction chunks generalizing s out data with
  | nil =>
    rw [compressFrom]
    refine ⟨?_, fun before after hsplit => ?_⟩
    · rw [emitted_request, emitted_yieldNonempty, List.flatten_nil, List.append_nil]
      exact h.finish henc
    · cases before with
      | nil =>
        rw [List.take_nil, List.flatten_nil, List.append_nil]
        exact (List.append_nil out).symm ▸ h.decodes
      | cons event before =>
        -- The source has ended, so it is not asked again.
        rw [List.cons_append, List.cons.injEq] at hsplit
        have hmem : Event.request ∈ yieldNonempty (enc.finish s) :=
          hsplit.2 ▸ List.mem_append_right before List.mem_cons_self
        exact absurd hmem (request_not_mem_yieldNonempty _)
  | cons chunk chunks ih =>
    have hblock := flushed_block henc h chunk
    obtain ⟨hall, hrequest⟩ := ih hblock
    rw [compressFrom]
    refine ⟨?_, fun before after hsplit => ?_⟩
    · rw [emitted_request, emitted_append, ← List.append_assoc, hall, List.flatten_cons,
        List.append_assoc]
    · cases before with
      | nil =>
        rw [requests, List.count_nil, List.take_zero, List.flatten_nil, List.append_nil]
        exact (List.append_nil out).symm ▸ h.decodes
      | cons event before =>
        rw [List.cons_append, List.cons.injEq] at hsplit
        obtain ⟨hevent, hrest⟩ := hsplit
        rcases split_grown hrest with ⟨rest, hbody⟩ | ⟨rest, rfl, hfrom⟩
        · -- The body of the loop asks for nothing, so the next request comes after it.
          have hmem : Event.request ∈ (block enc chunk s).1 :=
            hbody ▸ List.mem_append_right before List.mem_cons_self
          exact absurd hmem (request_not_mem_block enc chunk s)
        · have hcount : requests (event :: ((block enc chunk s).1 ++ rest)) =
              requests rest + 1 := by
            rw [requests, ← hevent, List.count_cons_self, List.count_append,
              List.count_eq_zero.2 (request_not_mem_block enc chunk s), Nat.zero_add, requests]
          rw [hcount, List.take_succ_cons, List.flatten_cons, ← hevent, emitted_request,
            emitted_append, ← List.append_assoc, ← List.append_assoc]
          exact hrequest rest after hfrom

/-- For every lawful encoder and every list of chunks: the output of the generator decodes to the
chunks, and whenever it asks for the next chunk its output so far decodes to all the chunks it was
given. -/
theorem compressStream_transparent (henc : enc.Lawful decode decodeAll) (chunks : List Bytes) :
    decodeAll (emitted (compressStream enc chunks)) = some chunks.flatten ∧
      ∀ before after, compressStream enc chunks = before ++ .request :: after →
        decode (emitted before) = some (chunks.take (requests before)).flatten :=
  compressFrom_transparent henc chunks henc.flushed_start

/-- The registry with the generator, for an encoder of each coding. -/
def streamEncoders (compress : Coding → Bytes → Bytes) (enc : Coding → StreamEncoder σ) :
    Encoders (List Bytes) where
  compress := compress
  compressStream := fun coding chunks => yields (compressStream (enc coding) chunks)

/-- The chunks of a streamed response that is compressed decode to those of the handler. -/
theorem stream_decodes {c : CompressedCtx} {response : Response} {chunks : List Bytes}
    (compress : Coding → Bytes → Bytes) {enc : Coding → StreamEncoder σ}
    (henc : (enc c.encoding).Lawful decode decodeAll)
    (heligible : c.Eligible (.stream response chunks : Call (List Bytes))) :
    ∃ response' chunks', c.forward (streamEncoders compress enc) (.stream response chunks) =
      .stream response' chunks' ∧ decodeAll chunks'.flatten = some chunks.flatten := by
  rw [CompressedCtx.forward_stream heligible]
  exact ⟨_, _, rfl, (compressFrom_transparent henc chunks henc.flushed_start).1⟩

/-! ## An encoder that holds its input back -/

/-- Nothing comes out before a flush, and an end mark when it is finished. The state is what is held
back. -/
def holding : StreamEncoder Bytes where
  start := []
  compress := fun data held => ([], held ++ data)
  flush := fun held => (held, [])
  finish := fun held => held ++ [3, 0]

/-- What is out and what is held back are together what was fed. -/
theorem holding_run (ops : List StreamEncoder.Op) :
    (holding.run ops holding.start).1 ++ (holding.run ops holding.start).2 =
    StreamEncoder.fed ops := by
  induction ops using List.reverseRecOn with
  | nil => rfl
  | append_singleton ops op ih =>
    have hfed : StreamEncoder.fed (ops ++ [op]) = StreamEncoder.fed ops ++ StreamEncoder.fed [op] :=
      List.flatMap_append
    rw [StreamEncoder.run_concat, hfed, ← ih]
    cases op with
    | compress data => simp [holding, StreamEncoder.apply, StreamEncoder.fed]
    | flush => simp [holding, StreamEncoder.apply, StreamEncoder.fed]

/-- Holding everything back until the end is lawful. -/
theorem lawful_holding : holding.Lawful some fun b => some (b.take (b.length - 2)) where
  start := rfl
  flush := by
    intro ops
    have hrun := holding_run (ops ++ [.flush])
    have hheld : (holding.run (ops ++ [.flush]) holding.start).2 = [] := by
      rw [StreamEncoder.run_concat]
      rfl
    have hfed : StreamEncoder.fed (ops ++ [.flush]) = StreamEncoder.fed ops := by
      rw [StreamEncoder.fed, List.flatMap_append]
      exact List.append_nil _
    rw [hheld, List.append_nil, hfed] at hrun
    exact congrArg some hrun
  finish := by
    intro ops
    have hend : (holding.run ops holding.start).1 ++ holding.finish
      (holding.run ops holding.start).2 =
        StreamEncoder.fed ops ++ [3, 0] := by
      rw [← holding_run ops, List.append_assoc]
      rfl
    rw [hend, List.length_append]
    exact congrArg some List.take_left

/-- Two chunks with an empty one between them. -/
theorem holding_transparent :
    holding.Lawful some (fun b => some (b.take (b.length - 2))) ∧
      emitted (compressStream holding [[1], [], [2, 3]]) = [1, 2, 3, 3, 0] ∧
      some ((emitted (compressStream holding [[1], [], [2, 3]])).take 3) =
        some [[1], [], [2, 3]].flatten :=
  ⟨lawful_holding, by decide, (compressStream_transparent lawful_holding [[1], [], [2, 3]]).1⟩

end LocalPost.Http.Compress
