import Mathlib.Data.List.Basic

/-!
# Incremental encoders

An encoder takes data piece by piece and puts out bytes when it likes; a flush makes it put out what
it holds back, finishing ends its output. A decoder is lawful for it if it makes of what was put out
up to a flush all the data fed so far, and of finished output all the data.

`Flushed` is the state of an encoder that holds nothing back; feeding a piece and flushing keeps it
(`Flushed.block`).
-/

set_option autoImplicit false

namespace LocalPost.Core

universe u

/-- An encoder with its states. -/
structure StreamEncoder (σ : Type u) where
  start : σ
  compress : List UInt8 → σ → List UInt8 × σ
  flush : σ → List UInt8 × σ
  finish : σ → List UInt8

namespace StreamEncoder

/-- A call on an encoder that is not finished. -/
inductive Op where
  | compress (data : List UInt8)
  | flush
  deriving DecidableEq, Repr

/-- The data that calls feed. -/
def fed (ops : List Op) : List UInt8 :=
  ops.flatMap fun op =>
    match op with
    | .compress data => data
    | .flush => []

variable {σ : Type u} (enc : StreamEncoder σ)

/-- What one call puts out. -/
def apply (s : σ) : Op → List UInt8 × σ
  | .compress data => enc.compress data s
  | .flush => enc.flush s

/-- What calls put out together. -/
def run : List Op → σ → List UInt8 × σ
  | [], s => ([], s)
  | op :: ops, s =>
    let (out, s') := enc.apply s op
    let (outs, s'') := run ops s'
    (out ++ outs, s'')

theorem run_concat (ops : List Op) (op : Op) (s : σ) :
    enc.run (ops ++ [op]) s =
      ((enc.run ops s).1 ++ (enc.apply (enc.run ops s).2 op).1,
        (enc.apply (enc.run ops s).2 op).2) := by
  induction ops generalizing s with
  | nil =>
    simp only [List.nil_append, run, List.append_nil]
  | cons op' ops ih =>
    rw [List.cons_append, run, run]
    simp only [ih, List.append_assoc]

/-- The decoder knows all that was fed up to a flush, and the whole of what is finished. -/
structure Lawful (decode decodeAll : List UInt8 → Option (List UInt8)) : Prop where
  start : decode [] = some []
  flush : ∀ ops, decode (enc.run (ops ++ [.flush]) enc.start).1 = some (fed ops)
  finish : ∀ ops, decodeAll ((enc.run ops enc.start).1 ++ enc.finish (enc.run ops enc.start).2) =
    some (fed ops)

/-- An encoder that has been fed `data` and has put out `out`, from which the decoder gets all of
it. -/
structure Flushed (decode : List UInt8 → Option (List UInt8)) (s : σ) (out data : List UInt8) :
    Prop where
  ran : ∃ ops, enc.run ops enc.start = (out, s) ∧ fed ops = data
  decodes : decode out = some data

variable {enc} {decode decodeAll : List UInt8 → Option (List UInt8)}

theorem Lawful.flushed_start (h : enc.Lawful decode decodeAll) :
    enc.Flushed decode enc.start [] [] :=
  ⟨⟨[], rfl, rfl⟩, h.start⟩

/-- A piece of data and a flush. -/
theorem Flushed.block {s : σ} {out data : List UInt8} (h : enc.Flushed decode s out data)
    (henc : enc.Lawful decode decodeAll) (piece : List UInt8) :
    enc.Flushed decode (enc.flush (enc.compress piece s).2).2
      (out ++ ((enc.compress piece s).1 ++ (enc.flush (enc.compress piece s).2).1))
      (data ++ piece) := by
  obtain ⟨ops, hrun, hfed⟩ := h.ran
  have hrun' : enc.run (ops ++ [.compress piece] ++ [.flush]) enc.start =
      (out ++ ((enc.compress piece s).1 ++ (enc.flush (enc.compress piece s).2).1),
        (enc.flush (enc.compress piece s).2).2) := by
    rw [run_concat, run_concat, hrun]
    simp only [apply, List.append_assoc]
  have hfed' : fed (ops ++ [.compress piece]) = data ++ piece := by
    rw [fed, List.flatMap_append, List.flatMap_singleton, ← fed, hfed]
  refine ⟨⟨_, hrun', ?_⟩, ?_⟩
  · rw [fed, List.flatMap_append, List.flatMap_singleton, List.append_nil, ← fed, hfed']
  · have hflush := henc.flush (ops ++ [.compress piece])
    rw [hrun', hfed'] at hflush
    exact hflush

theorem Flushed.finish {s : σ} {out data : List UInt8} (h : enc.Flushed decode s out data)
    (henc : enc.Lawful decode decodeAll) : decodeAll (out ++ enc.finish s) = some data := by
  obtain ⟨ops, hrun, hfed⟩ := h.ran
  have hfinish := henc.finish ops
  rw [hrun, hfed] at hfinish
  exact hfinish

end StreamEncoder

end LocalPost.Core
