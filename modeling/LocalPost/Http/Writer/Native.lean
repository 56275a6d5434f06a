import LocalPost.Http.Writer.Wire
import Mathlib.Tactic.Push

/-!
# Answering through a native context

`complete`, `stream` and the recovery from a handler's exception are the same on both backends: they
are written over the methods of `_NativeReqCtx`. What they do with the connection follows from a few
laws of these methods.
-/

set_option autoImplicit false

namespace LocalPost.Http.Writer

/-- `_NativeReqCtx`: the methods that write a response, the connection's `close` and
`ctx.response_status`. -/
structure NativeReqCtx (σ : Type) where
  startResponse : Response → σ → Outcome σ
  send : Bytes → σ → Outcome σ
  finishResponse : σ → Outcome σ
  sendfile : Response → Nat → Bytes → Bool → σ → Outcome σ
  close : σ → σ
  responseStatus : σ → Option Nat

namespace NativeReqCtx

variable {σ : Type} (K : NativeReqCtx σ)

/-- The body of `complete`, when there is one. -/
def sendBody : Option Bytes → σ → Outcome σ
  | none, c => .done c
  | some body, c => K.send body c

/-- `complete`. -/
def complete (response : Response) (body : Option Bytes) (c : σ) : Outcome σ :=
  ((K.startResponse response c).andThen (K.sendBody body)).andThen K.finishResponse

/-- The loop of `_native_stream`. -/
def sendChunks : List Bytes → σ → Outcome σ
  | [], c => .done c
  | chunk :: chunks, c => (K.send chunk c).andThen (sendChunks chunks)

/-- What follows the loop. A cancelled stream returns without finishing; the pool closes its
connection. -/
def endStream : Ending → σ → Outcome σ
  | .finished, c => K.finishResponse c
  | .raises, c => .raised .iteration c
  | .cancelled, c => .done (K.close c)

/-- `_native_stream`. -/
def stream (response : Response) (chunks : List Bytes) (ending : Ending) (c : σ) : Outcome σ :=
  ((K.startResponse response c).andThen (K.sendChunks chunks)).andThen (K.endStream ending)

/-- The methods of a handler's answer. -/
def answer : Answer → σ → Outcome σ
  | .complete response body => K.complete response body
  | .stream response chunks ending => K.stream response chunks ending
  | .sendfile response count moved fails => K.sendfile response count moved fails

/-- `emit_handler_error`. -/
def emitHandlerError (c : σ) : σ :=
  if K.responseStatus c = none then
    match K.answer internalError c with
    | .done c => c
    | .raised _ c => K.close c
  else K.close c

/-- A handler that answers and returns, with the recovery from what it raised. -/
def handle (a : Answer) (c : σ) : σ :=
  match K.answer a c with
  | .done c => c
  | .raised _ c => K.emitHandlerError c

theorem status_andThen {o : Outcome σ} {f : σ → Outcome σ} {status : Option Nat}
    (h : K.responseStatus o.state = status)
    (hf : ∀ c, K.responseStatus c = status → K.responseStatus (f c).state = status) :
    K.responseStatus (o.andThen f).state = status :=
  Outcome.state_andThen (P := fun c => K.responseStatus c = status) h hf

/-- The status is set with the head and stays; `sendfile` refuses a response before it has done
anything, and does not return when the transfer fails. -/
structure Lawful (isOpen : σ → Bool) : Prop where
  startResponse : ∀ r c, K.responseStatus (K.startResponse r c).state = some r.statusCode
  send : ∀ b c, K.responseStatus (K.send b c).state = K.responseStatus c
  finishResponse : ∀ c, K.responseStatus (K.finishResponse c).state = K.responseStatus c
  sendfile : ∀ r n moved fails c, K.sendfile r n moved fails c = .raised .valueError c ∨
    K.responseStatus (K.sendfile r n moved fails c).state = some r.statusCode
  sendfile_fails : ∀ r n moved c c', K.sendfile r n moved true c ≠ .done c'
  close : ∀ c, isOpen (K.close c) = false

namespace Lawful

variable {K} {isOpen : σ → Bool}

theorem sendChunks (hK : K.Lawful isOpen) (chunks : List Bytes) {c : σ} {status : Nat}
    (h : K.responseStatus c = some status) :
    K.responseStatus (K.sendChunks chunks c).state = some status := by
  induction chunks generalizing c with
  | nil => exact h
  | cons chunk chunks ih =>
    refine K.status_andThen ?_ fun c' hc' => ih hc'
    rw [hK.send, h]

/-- `complete` always starts its response. -/
theorem complete_status (hK : K.Lawful isOpen) (response : Response) (body : Option Bytes) (c : σ) :
    K.responseStatus (K.answer (.complete response body) c).state = some response.statusCode := by
  refine K.status_andThen (K.status_andThen (hK.startResponse response c) fun c₁ hc₁ => ?_)
    fun c₁ hc₁ => ?_
  · cases body with
    | none => exact hc₁
    | some body => rw [NativeReqCtx.sendBody, hK.send, hc₁]
  · rw [hK.finishResponse, hc₁]

/-- An answer that raises has started its response, or has done nothing. -/
theorem answer_raised (hK : K.Lawful isOpen) {a : Answer} {c c' : σ} {e : Exc}
    (h : K.answer a c = .raised e c') :
    c' = c ∨ K.responseStatus c' = some a.response.statusCode := by
  have hstate : c' = (K.answer a c).state := by rw [h, Outcome.state]
  cases a with
  | complete response body =>
    -- Only a refused sendfile leaves the context as it was; everything else has set the status.
    right
    rw [hstate]
    exact hK.complete_status response body c
  | stream response chunks ending =>
    have hloop := K.status_andThen (hK.startResponse response c)
      fun c₁ hc₁ => hK.sendChunks chunks hc₁
    right
    cases hsend : (K.startResponse response c).andThen (K.sendChunks chunks) with
    -- the loop has raised, behind the head
    | raised e₁ c₁ =>
      rw [answer, NativeReqCtx.stream, hsend] at h
      cases h
      rw [hsend] at hloop
      exact hloop
    | done c₁ =>
      rw [answer, NativeReqCtx.stream, hsend] at h
      rw [hsend] at hloop
      -- the loop is through: the iterator raises, or `finish_response` does
      cases ending with
      | cancelled => cases h
      | raises =>
        cases h
        exact hloop
      | finished =>
        have hend := hK.finishResponse c₁
        have hfinish : K.finishResponse c₁ = .raised e c' := h
        rw [hfinish] at hend
        exact hend.trans hloop
  | sendfile response count moved fails =>
    rcases hK.sendfile response count moved fails c with hrefused | hstatus
    · left
      rw [answer, hrefused] at h
      cases h
      rfl
    · right
      rw [hstate]
      exact hstatus

/-- An answer that returns and was not cancelled has come to its end. -/
theorem finishes_of_done (hK : K.Lawful isOpen) {a : Answer} {c c' : σ}
    (h : K.answer a c = .done c')
    (hcancel : ∀ r chunks, a ≠ .stream r chunks .cancelled) : a.finishes = true := by
  cases a with
  | complete response body => rfl
  | stream response chunks ending =>
    obtain ⟨c₁, -, hend⟩ := Outcome.andThen_done h
    cases ending with
    | finished => rfl
    | raises => cases hend
    | cancelled => exact absurd rfl (hcancel response chunks)
  | sendfile response count moved fails =>
    cases fails with
    | false => rfl
    | true => exact absurd h (hK.sendfile_fails response count moved c c')

/-- An answer that returns has come to its end, or the connection is closed. -/
theorem answer_done (hK : K.Lawful isOpen) {a : Answer} {c c' : σ} (h : K.answer a c = .done c') :
    a.finishes = true ∨ isOpen c' = false := by
  by_cases hcancel : ∀ r chunks, a ≠ .stream r chunks .cancelled
  · exact .inl (hK.finishes_of_done h hcancel)
  · push Not at hcancel
    obtain ⟨response, chunks, rfl⟩ := hcancel
    obtain ⟨c₁, -, hend⟩ := Outcome.andThen_done h
    cases hend
    exact .inr (hK.close c₁)

/-- What is left of a request: its connection is closed, or its answer has gone out, or the 500 in
its place. -/
theorem handle_cases (hK : K.Lawful isOpen) (a : Answer) {c : σ} (hc : K.responseStatus c = none) :
    isOpen (K.handle a c) = false ∨
    ∃ b, (b = a ∨ b = internalError) ∧ b.finishes = true ∧ K.answer b c = .done (K.handle a c) := by
  cases hanswer : K.answer a c with
  | done c' =>
    have hhandle : K.handle a c = c' := by rw [handle, hanswer]
    rw [hhandle]
    rcases hK.answer_done hanswer with hfinish | hclosed
    · exact .inr ⟨a, .inl rfl, hfinish, hanswer⟩
    · exact .inl hclosed
  | raised e c' =>
    have hhandle : K.handle a c = K.emitHandlerError c' := by rw [handle, hanswer]
    rw [hhandle, emitHandlerError]
    rcases hK.answer_raised hanswer with rfl | hstatus
    · -- Nothing has gone out, so the 500 does.
      rw [if_pos hc]
      cases herror : K.answer internalError c' with
      | done c₁ => exact .inr ⟨internalError, .inr rfl, rfl, herror⟩
      | raised e₁ c₁ => exact .inl (hK.close c₁)
    · rw [hstatus, if_neg (by simp)]
      exact .inl (hK.close c')

end Lawful

end NativeReqCtx

end LocalPost.Http.Writer
