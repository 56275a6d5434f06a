import LocalPost.Http.Writer.Httptools

/-!
# What has gone out on httptools

How the methods of the context leave the socket, however they end. When one raises, some of its
bytes have gone out behind the pending head (`Wrote`); when it returns, the head that was pending is
out (`head_of_flush`).
-/

set_option autoImplicit false

namespace LocalPost.Http.Writer.Httptools

open LocalPost.Core

/-! ## What has gone out when a method ends -/

/-- Some of the bytes `b`, from their beginning, have gone out behind the pending head. -/
structure Wrote (b : Bytes) (c c' : Ctx) : Prop where
  body : ∃ b', b' <+: b ∧ bodyBytes c'.out.wire = bodyBytes c.out.wire ++ b'
  heads : ∀ r, Item.head r ∈ c'.out.wire → Item.head r ∈ c.out.wire ∨ c.out.pending = some r

theorem Wrote.refl (b : Bytes) (c : Ctx) : Wrote b c c where
  body := ⟨[], List.nil_prefix, (List.append_nil _).symm⟩
  heads := fun _ h => .inl h

/-- What has gone out whole, and some of what comes behind it. -/
theorem Wrote.after {b b' : Bytes} {c c' c'' : Ctx} (h : Ctx.Pushes b c c') (h' : Wrote b' c' c'') :
    Wrote (b ++ b') c c'' where
  body := by
    obtain ⟨part, hpart, hbody⟩ := h'.body
    refine ⟨b ++ part, (List.prefix_append_right_inj b).2 hpart, ?_⟩
    rw [hbody, h.out.body, List.append_assoc]
  heads := fun r hr => (h'.heads r hr).elim (h.out.heads r) fun hp => .inr (h.out.pending r hp)

theorem Wrote.append {b : Bytes} {c c' : Ctx} (h : Wrote b c c') (b' : Bytes) :
    Wrote (b ++ b') c c' where
  body := by
    obtain ⟨part, hpart, hbody⟩ := h.body
    exact ⟨part, hpart.trans (List.prefix_append b b'), hbody⟩
  heads := h.heads

/-- One method after the other. -/
theorem Wrote.andThen {b b' : Bytes} {c : Ctx} {o : Outcome Ctx} {f : Ctx → Outcome Ctx}
    (h : Wrote b c o.state) (hdone : ∀ c', o = .done c' → Ctx.Pushes b c c')
    (hf : ∀ c', o = .done c' → Wrote b' c' (f c').state) : Wrote (b ++ b') c
    (o.andThen f).state := by
  cases o with
  | done c' => exact Wrote.after (hdone c' rfl) (hf c' rfl)
  | raised e c' => exact h.append b'

/-- The pending head, if there is one, with bytes behind it. -/
theorem wrote_sendAll {items : List Item} {o : Out} {b : Bytes}
    (hbody : ∀ k, bodyBytes (items.take k) <+: b) (hitems : bodyBytes items = b) :
    ∃ b', b' <+: b ∧ bodyBytes (o.sendAll items).state.wire = bodyBytes o.wire ++ b' := by
  rw [Out.sendAll]
  split
  · exact ⟨_, hbody _, bodyBytes_append _ _⟩
  · exact ⟨b, List.prefix_rfl, by rw [Outcome.state, bodyBytes_append, hitems]⟩
  · exact ⟨b, List.prefix_rfl, by rw [Outcome.state, bodyBytes_append, hitems]⟩

theorem heads_sendAll {items : List Item} {o : Out} {r : Response}
    (h : Item.head r ∈ (o.sendAll items).state.wire) : Item.head r ∈ o.wire ∨
    Item.head r ∈ items := by
  rw [Out.sendAll] at h
  split at h
  · exact (List.mem_append.1 h).imp id List.mem_of_mem_take
  · exact List.mem_append.1 h
  · exact List.mem_append.1 h

/-- Of a write, a beginning has gone out, whether it returns or not. -/
theorem wrote_flush (b : Bytes) (c : Ctx) : Wrote b c (c.flush b).state := by
  have hstate : (c.flush b).state.out = (c.out.flush b).state := by
    rw [Ctx.flush]
    cases c.out.flush b <;> rfl
  have htake : ∀ (r : Response) (k : Nat), bodyBytes ([Item.head r, .bytes b].take k) <+: b := by
    intro r k
    -- A failing send may stop before the head, behind it, or behind the bytes.
    rcases k with _ | _ | k
    · exact List.nil_prefix
    · exact List.nil_prefix
    · refine ⟨[], ?_⟩
      rw [List.take_succ_cons, List.take_succ_cons, List.take_nil,
        bodyBytes_head_bytes, List.append_nil]
  have htake' : ∀ k : Nat, bodyBytes ([Item.bytes b].take k) <+: b := by
    intro k
    cases k with
    | zero => exact List.nil_prefix
    | succ k =>
      refine ⟨[], ?_⟩
      rw [List.take_succ_cons, List.take_nil, bodyBytes_bytes, List.append_nil]
  cases hpending : c.out.pending with
  | some response =>
    have hflush : c.out.flush b =
        Out.sendAll [.head response, .bytes b] { c.out with pending := none } := by
      rw [Out.flush, hpending]
    refine ⟨?_, fun r hr => ?_⟩
    · rw [hstate, hflush]
      exact wrote_sendAll (htake response) (bodyBytes_head_bytes response b)
    · rw [hstate, hflush] at hr
      rcases heads_sendAll hr with hr | hr
      · exact .inl hr
      · simp only [List.mem_cons, Item.head.injEq, reduceCtorEq, List.not_mem_nil, or_false] at hr
        exact .inr (by rw [hpending, hr])
  | none =>
    by_cases hempty : b = []
    · have hflush : c.out.flush b = .done c.out := by rw [Out.flush, hpending, if_pos hempty]
      refine ⟨⟨[], List.nil_prefix, ?_⟩, fun r hr => .inl ?_⟩
      · rw [hstate, hflush, List.append_nil]
        rfl
      · rw [hstate, hflush] at hr
        exact hr
    · have hflush : c.out.flush b = c.out.sendAll
        [.bytes b] := by rw [Out.flush, hpending, if_neg hempty]
      refine ⟨?_, fun r hr => ?_⟩
      · rw [hstate, hflush]
        exact wrote_sendAll htake' (bodyBytes_bytes b)
      · rw [hstate, hflush] at hr
        rcases heads_sendAll hr with hr | hr
        · exact .inl hr
        · simp at hr

/-- Of a chunk, a beginning has gone out, whether `send` returns or not. -/
theorem wrote_send (chunk : Bytes) (c : Ctx) :
    Wrote (Ctx.pushed c.bodyAllowed c.chunked chunk) c (c.send chunk).state := by
  rw [Ctx.send, Ctx.pushed]
  cases hallowed : c.bodyAllowed with
  | false => exact wrote_flush [] c
  | true =>
    rw [Bool.not_true, if_neg Bool.false_ne_true, if_pos rfl]
    by_cases hempty : chunk = [] ∧ c.out.pending = none
    · rw [if_pos hempty]
      exact Wrote.refl _ c
    · rw [if_neg hempty, ← Ctx.framed]
      exact wrote_flush _ c

/-- Of chunks, a beginning has gone out, whether all are sent or not. -/
theorem wrote_sendChunks (chunks : List Bytes) (c : Ctx) :
    Wrote (chunks.flatMap (Ctx.pushed c.bodyAllowed c.chunked)) c
      (Ctx.methods.sendChunks chunks c).state := by
  induction chunks generalizing c with
  | nil => exact Wrote.refl _ c
  | cons chunk chunks ih =>
    rw [List.flatMap_cons]
    refine Wrote.andThen (wrote_send chunk c) (fun c' hc' => Ctx.send_done hc') fun c' hc' => ?_
    have hpush := Ctx.send_done hc'
    rw [← hpush.bodyAllowed, ← hpush.chunked]
    exact ih c'

theorem wrote_socketSendfile (moved : Bytes) (fails : Bool) (c : Ctx) :
    Wrote moved c (c.socketSendfile moved fails).state := by
  have hpush := Out.pushes_bytes moved c.out
  have hwrote : Wrote moved c
    { c with out := { c.out with wire := c.out.wire ++ [.bytes moved] } } :=
    ⟨⟨moved, List.prefix_rfl, hpush.body⟩, hpush.heads⟩
  cases fails with
  | false => exact hwrote
  | true => exact hwrote

/-! ## The head goes out -/

/-- The head of `r` is pending or out. -/
def Carries (r : Response) (c : Ctx) : Prop := c.out.pending = some r ∨ Item.head r ∈ c.out.wire

theorem sendAll_done_wire {items : List Item} {o o' : Out} (h : o.sendAll items = .done o')
    {item : Item} (hmem : item ∈ o.wire ∨ item ∈ items) : item ∈ o'.wire := by
  rw [(Out.sendAll_done h).1]
  exact List.mem_append.2 hmem

/-- With the first write the head is on the wire. -/
theorem head_of_flush {b : Bytes} {c c' : Ctx} (h : c.flush b = .done c') {r : Response}
    (hr : Carries r c) : Item.head r ∈ c'.out.wire := by
  have hflush := Ctx.flush_done_out h
  cases hpending : c.out.pending with
  | some response =>
    rw [Out.flush, hpending] at hflush
    rcases hr with hr | hr
    · have heq : response = r := Option.some.inj (hpending.symm.trans hr)
      exact sendAll_done_wire hflush (.inr (heq ▸ List.mem_cons_self))
    · exact sendAll_done_wire hflush (.inl hr)
  | none =>
    have hout : Item.head r ∈ c.out.wire := hr.resolve_left (by rw [hpending]; simp)
    by_cases hempty : b = []
    · rw [Out.flush, hpending, if_pos hempty] at hflush
      rw [← Outcome.done.inj hflush]
      exact hout
    · rw [Out.flush, hpending, if_neg hempty] at hflush
      exact sendAll_done_wire hflush (.inl hout)

theorem carries_send {chunk : Bytes} {c c' : Ctx} (h : c.send chunk = .done c') {r : Response}
    (hr : Carries r c) : Carries r c' := by
  rw [Ctx.send] at h
  split at h
  · exact .inr (head_of_flush h hr)
  · split at h
    · cases h
      exact hr
    · exact .inr (head_of_flush h hr)

theorem carries_sendChunks {chunks : List Bytes} {c c' : Ctx}
    (h : Ctx.methods.sendChunks chunks c = .done c') {r : Response} (hr : Carries r c) :
    Carries r c' := by
  induction chunks generalizing c with
  | nil =>
    cases h
    exact hr
  | cons chunk chunks ih =>
    obtain ⟨c₁, hsend, hrest⟩ := Outcome.andThen_done h
    exact ih hrest (carries_send hsend hr)

end LocalPost.Http.Writer.Httptools
