import LocalPost.Http.Async.Exchange
import LocalPost.Http.Writer.Sent

/-!
# The bridges and the native servers

A handler that makes the same call on each of the four transports gives its client the same reply,
as far as the status allows a body (`bridges_agree`).
-/

set_option autoImplicit false

namespace LocalPost.Http.Async

open LocalPost.Core LocalPost.Http.Writer

/-- The call on a native context. `socket.sendfile` raises for a closed file and for a count of
zero. -/
def Call.answer : Call → Answer
  | .complete r body => .complete r body
  | .stream r chunks raises => .stream r chunks (if raises then .raises else .finished)
  | .sendfile r file offset count =>
    match file.data with
    | none => .sendfile r count [] true
    | some data =>
      if count = 0 then .sendfile r count [] true
      else .sendfile r count ((data.drop offset).take count) false

namespace Call

theorem response_answer (k : Call) : k.answer.response = k.response := by
  cases k with
  | complete r body => rfl
  | stream r chunks raises => rfl
  | sendfile r file offset count =>
    rw [answer]
    split
    · rfl
    · split <;> rfl

/-- No response call is a stream that is cancelled. -/
theorem answer_ne_cancelled (k : Call) (r : Response) (chunks : List Bytes) :
    k.answer ≠ .stream r chunks .cancelled := by
  intro h
  cases k with
  | complete r body => cases h
  | stream r chunks raises => cases raises <;> cases h
  | sendfile r file offset count =>
    rw [answer] at h
    split at h
    · cases h
    · split at h <;> cases h

/-- Where a body is allowed, it is what the call hands over. -/
theorem body_answer {k : Call} (h : k.answer.finishes = true) : k.answer.body true = k.handed := by
  cases k with
  | complete r body => rfl
  | stream r chunks raises => rfl
  | sendfile r file offset count =>
    rw [answer] at h ⊢
    split at h
    · cases h
    · rename_i data hdata
      split at h
      · cases h
      · rename_i hcount
        rw [if_neg hcount, handed, hdata]
        rfl

end Call

/-- For every call that has returned on the ASGI and on the RSGI bridge, to peers that are there,
the two servers have the same reply. What a native backend sends for the call decodes to its status
and body, when the status and the method allow a body, the method is not CONNECT, and a file is
declared with its length. -/
theorem bridges_agree (disk : Bytes → Option Bytes) (k : Call) {c : Ctx Asgi.Sent}
    {d : Ctx Rsgi.Sent} (hc : (system asgi).Reachable c) (hd : (system rsgi).Reachable d)
    (hasgi : (k, .returned) ∈ c.log ∧ c.disconnected = false)
    (hrsgi : (k, .returned) ∈ d.log ∧ d.disconnected = false) (hdisk : k.OnDisk disk) :
    ∃ reply, Asgi.read c.sent = some reply ∧ Rsgi.read disk d.sent = some reply ∧
      (k.answer.Declared →
        (∀ method keepAlive result, method ≠ connectMethod →
          responseAllowsBody method k.response.statusCode = true →
          sentHttptools k.answer method keepAlive = some result →
            result = (reply.status, reply.body)) ∧
        ∀ {ω : Type} (W : H11.Connection ω) (framing : ω → H11.Framing) (closing : ω → Bool)
          (closes : Bytes → Bool → Response → Bool), W.Documented framing closing closes →
          ∀ method keepAlive drained result, method.upper ≠ connectMethod →
            responseAllowsBody method.upper k.response.statusCode = true →
            sentH11 W k.answer method keepAlive drained = some result →
              result = (reply.status, reply.body)) := by
  have hcinv := inv_reachable hc
  have hdinv := inv_reachable hd
  have haccepts : d.Accepts k := .inr ⟨_, by decide, hrsgi.1⟩
  -- the one call that has started on RSGI is this one
  have honly : ∀ k', d.Accepts k' → k'.OnDisk disk := fun k' hk' =>
    hdinv.accepts_unique haccepts hk' ▸ hdisk
  have hwhole := (Asgi.answers hcinv).whole k hasgi.1 hasgi.2
  have hwhole' := (Rsgi.answers disk hdinv honly).whole k hrsgi.1 hrsgi.2
  have hreply : ∀ method : Bytes, responseAllowsBody method k.response.statusCode = true →
      k.answer.finishes = true →
        (k.answer.response.statusCode,
          k.answer.body (responseAllowsBody method k.answer.response.statusCode)) =
          (k.reply.status, k.reply.body) := by
    intro method hallowed hfinish
    rw [k.response_answer, hallowed, Call.body_answer hfinish]
    rfl
  refine ⟨k.reply, hwhole, hwhole', fun hdeclared => ⟨?_, ?_⟩⟩
  · intro method keepAlive result hconnect hallowed hsent
    have hfinish := finishes_of_sentHttptools k.answer_ne_cancelled hsent
    rw [sentHttptools_eq hconnect hfinish hdeclared hsent]
    exact hreply method hallowed hfinish
  · intro ω W framing closing closes hW method keepAlive drained result hconnect hallowed hsent
    have hhead : method.upper ≠ headMethod := by
      intro heq
      rw [heq] at hallowed
      cases hallowed
    have hfinish := finishes_of_sentH11 k.answer_ne_cancelled hsent
    rw [sentH11_eq hW hhead hconnect hfinish hdeclared hsent]
    exact hreply method.upper hallowed hfinish

/-- A stream whose whole reply goes out, on each transport. -/
theorem bridges_agree_twoChunks :
    ∃ reply, Asgi.read [.start 200 [], .body [104] true, .body [105] true, .body [] false] =
      some reply ∧
      ∀ keepAlive result, sentHttptools twoChunks.answer [71, 69, 84] keepAlive = some result →
        result = (reply.status, reply.body) := by
  have hasgi : (system asgi).Reachable ⟨true, true, some 200, false,
      [.start 200 [], .body [104] true, .body [105] true, .body [] false], none,
          [(twoChunks, .returned)]⟩ := by
    refine ⟨dispatch asgi 0 (.ofTarget [] [] [] []),
      [.call twoChunks, .returns, .returns, .returns, .returns, .returns, .returns, .returns],
        ⟨0, _, rfl⟩, ?_⟩
    decide
  have hrsgi : (system rsgi).Reachable ⟨true, true, some 200, false,
      [.responseStream 200 [], .sendBytes [104], .sendBytes [105]], none,
          [(twoChunks, .returned)]⟩ := by
    refine ⟨dispatch rsgi 0 (.ofTarget [] [] [] []),
      [.call twoChunks, .returns, .returns, .returns, .returns, .returns, .returns],
        ⟨0, _, rfl⟩, ?_⟩
    decide
  obtain ⟨reply, hread, -, hnative⟩ := bridges_agree (fun _ => none) twoChunks hasgi hrsgi
    ⟨List.mem_singleton_self _, rfl⟩ ⟨List.mem_singleton_self _, rfl⟩ trivial
  exact ⟨reply, hread, fun keepAlive result =>
    (hnative trivial).1 [71, 69, 84] keepAlive result (by decide) (by decide)⟩

end LocalPost.Http.Async
