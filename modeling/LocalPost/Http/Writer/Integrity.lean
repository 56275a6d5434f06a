import LocalPost.Core.Lts
import LocalPost.Http.Writer.H11
import LocalPost.Http.Writer.Httptools

/-!
# Responses on a connection that is kept alive

A client that has read a head takes the declared number of bytes for the body and the rest for the
next response. `Conn.Sound` says that it may: no response follows one with another length than
declared, and a connection on which such a response has gone out takes no further request.

On httptools nobody counts, so the bytes handed over must add up, or the connection must be about to
close; a request behind it in the same read is served all the same. On h11 the parser counts, except
for what `sendfile` moves past it.
-/

set_option autoImplicit false

namespace LocalPost.Http.Writer

open LocalPost.Core

/-- A response as it went out, with the method it answers. -/
structure Reply where
  method : Bytes
  wire : List Item
  deriving DecidableEq, Repr

/-- The connection: its socket, whether it is closed before the next request, and the responses so
far. -/
structure Conn where
  isOpen : Bool
  closing : Bool
  replies : List Reply
  deriving DecidableEq, Repr

namespace Conn

/-- A new connection. -/
def start : Conn := ⟨true, false, []⟩

/-- One more response has gone out. -/
def answered (k : Conn) (isOpen closing : Bool) (reply : Reply) : Conn :=
  ⟨isOpen, closing, k.replies ++ [reply]⟩

/-- No response follows one whose length is not as declared, nor will one. -/
structure Sound (k : Conn) : Prop where
  earlier : ∀ reply ∈ k.replies.dropLast, Exact reply.method reply.wire
  kept : k.isOpen = true → k.closing = false → ∀ reply ∈ k.replies, Exact reply.method reply.wire

theorem sound_start : start.Sound where
  earlier := fun _ h => by cases h
  kept := fun _ _ _ h => by cases h

/-- One more response on a connection that was kept. -/
theorem Sound.answered {k : Conn} {isOpen closing : Bool} {reply : Reply} (h : k.Sound)
    (hopen : k.isOpen = true) (hclosing : k.closing = false)
    (hexact : isOpen = true → closing = false → Exact reply.method reply.wire) :
    (k.answered isOpen closing reply).Sound where
  earlier := by
    rw [Conn.answered, List.dropLast_concat]
    exact h.kept hopen hclosing
  kept := by
    intro hopen' hclosing' reply' hmem
    rcases List.mem_append.1 hmem with hmem | hmem
    · exact h.kept hopen hclosing reply' hmem
    · rw [List.mem_singleton.1 hmem]
      exact hexact hopen' hclosing'

/-- A connection that is closed, or about to be, has no more to keep. -/
theorem Sound.closed {k : Conn} (h : k.Sound) : Sound { k with isOpen := false } where
  earlier := h.earlier
  kept := fun hopen => by cases hopen

end Conn

namespace Httptools

/-- A request with its answer: the method, whether the parser would keep the connection, whether the
client waits for a 100 that was not sent, whether it came in the same read as the one before, and
the faults of the socket. -/
structure Exchange where
  method : Bytes
  keepAlive : Bool
  expectUnmet : Bool
  pipelined : Bool
  answer : Answer
  faults : List (Option Nat)
  deriving DecidableEq, Repr

/-- What `_loop` does between two reads: it closes the connection, or resets it for the next
request. -/
def loop (k : Conn) : Conn := if k.closing then { k with isOpen := false } else k

/-- A request is served. One of the same read is dispatched before `_loop` looks at the
connection. -/
def serve (k : Conn) (e : Exchange) : Conn :=
  let k := if e.pipelined then k else loop k
  if k.isOpen then
    let c := Ctx.methods.handle e.answer (Ctx.start e.method e.keepAlive k.closing e.faults)
    k.answered c.isOpen (c.closeAfterResponse || (!e.keepAlive || e.expectUnmet))
      ⟨e.method, c.out.wire⟩
  else k

/-- The requests of a connection, one after the other. -/
def system : Lts Conn Exchange where
  init := fun k => k = Conn.start
  step := fun k e => some (serve k e)

/-- The connection is closed after this response. -/
def Exchange.AsksClose (e : Exchange) : Prop :=
  (scanResponseHeaders e.answer.response.headers).hasClose = true ∨ e.keepAlive = false ∨
    e.expectUnmet = true

instance (e : Exchange) : Decidable e.AsksClose := inferInstanceAs (Decidable (_ ∨ _ ∨ _))

/-- The condition on a request: it did not come in one read with one after whose response the
connection is to be closed; and the bytes of its answer add up to the length declared, or the
connection is closed after it. -/
def Fits (k : Conn) (e : Exchange) : Prop :=
  (e.pipelined = true → k.closing = false) ∧
  (e.AsksClose ∨ ∀ n, e.answer.response.Declares n →
    mayCarryBody e.method e.answer.response.statusCode = true → e.answer.AddsUp n)

theorem closeAfterResponse_of_answer {a : Answer} {c c' : Ctx}
    (h : Ctx.methods.answer a c = .done c') (hfinish : a.finishes = true) :
    c'.closeAfterResponse =
      (c.closeAfterResponse ||
        ((scanResponseHeaders a.response.headers).hasClose || !c.keepAlive)) :=
  (Ctx.answer_done h hfinish).closeAfterResponse

/-- Only a connection that is not about to close serves a request. -/
theorem ready {k k₁ : Conn} {e : Exchange} (h : k.Sound) (he : Fits k e)
    (hk₁ : (if e.pipelined then k else loop k) = k₁) :
    k₁.Sound ∧ (k₁.isOpen = true → k₁.closing = false) := by
  rw [loop] at hk₁
  by_cases hpipelined : e.pipelined = true
  · rw [if_pos hpipelined] at hk₁
    rw [← hk₁]
    exact ⟨h, fun _ => he.1 hpipelined⟩
  · rw [if_neg hpipelined] at hk₁
    cases hclosing : k.closing with
    | true =>
      rw [hclosing, if_pos rfl] at hk₁
      rw [← hk₁]
      have hclosed := h.closed
      rw [hclosing] at hclosed
      exact ⟨hclosed, fun hopen => Bool.noConfusion hopen⟩
    | false =>
      rw [hclosing, if_neg Bool.false_ne_true] at hk₁
      rw [← hk₁]
      exact ⟨h, fun _ => hclosing⟩

/-- A fitting exchange keeps the connection sound. -/
theorem sound_serve {k : Conn} {e : Exchange} (h : k.Sound) (he : Fits k e) :
    (serve k e).Sound := by
  obtain ⟨k₁, hk₁⟩ : ∃ k₁, (if e.pipelined then k else loop k) = k₁ := ⟨_, rfl⟩
  obtain ⟨hsound, hready⟩ := ready h he hk₁
  simp only [serve, hk₁]
  cases hopen : k₁.isOpen with
  | false => exact hsound
  | true =>
    -- a connection that stays open behind the answer was not asked to close
    refine hsound.answered hopen (hready hopen) fun hopen' hclosing' => ?_
    rw [Bool.or_eq_false_iff, Bool.or_eq_false_iff, Bool.not_eq_false'] at hclosing'
    obtain ⟨hafter, hkeep, hexpect⟩ := hclosing'
    rcases Ctx.lawful_methods.handle_cases e.answer
      (c := Ctx.start e.method e.keepAlive k₁.closing e.faults) rfl with
      hclosed | ⟨b, hb, hfinish, hanswer⟩
    · rw [hclosed] at hopen'
      cases hopen'
    · rw [closeAfterResponse_of_answer hanswer hfinish, Bool.or_eq_false_iff, Bool.or_eq_false_iff]
        at hafter
      -- the handler's answer went out, or the 500 in its place
      rcases hb with rfl | rfl
      · have hstays : ¬e.AsksClose := by
          rintro (hclose | hclose | hclose)
          · rw [hafter.2.1] at hclose
            cases hclose
          · rw [hkeep] at hclose
            cases hclose
          · rw [hexpect] at hclose
            cases hclose
        exact Ctx.exact_of_addsUp rfl rfl hanswer hfinish (he.2.resolve_left hstays)
      · -- The 500 closes the connection.
        exact absurd hafter.2.1 (by decide)

end Httptools

namespace H11

variable {ω : Type}

/-- A request with its answer: the method, whether the request allows another one, whether the
parser reaches its end, and the faults of the socket. -/
structure Exchange where
  method : Bytes
  keepAlive : Bool
  drained : Bool
  answer : Answer
  faults : List (Option Nat)
  deriving DecidableEq, Repr

/-- A request is served, unless the connection is closed or `_loop` finds that it must be. -/
def serve (W : Connection ω) (k : Conn) (e : Exchange) : Conn :=
  if k.isOpen && !k.closing then
    let c := (Ctx.methods W).handle e.answer (Ctx.start W e.method e.keepAlive e.drained e.faults)
    k.answered c.isOpen (W.mustClose c.parser) ⟨c.method, c.out.wire⟩
  else { k with isOpen := false }

/-- The requests of a connection, one after the other. -/
def system (W : Connection ω) : Lts Conn Exchange where
  init := fun k => k = Conn.start
  step := fun k e => some (serve W k e)

/-- The condition on a request: the kernel moves all that `sendfile` asks for, or the connection is
closed after the response. -/
def Fits (closes : Bytes → Bool → Response → Bool) (e : Exchange) : Prop :=
  closes e.method e.keepAlive e.answer.response = true ∨ e.answer.TransfersAll

variable {W : Connection ω} {framing : ω → Framing} {closing : ω → Bool}
  {closes : Bytes → Bool → Response → Bool}

/-- A content length is framing. -/
theorem hasFraming_of_contentLength {headers : List (Bytes × Bytes)} {n : Int}
    (h : contentLength headers = some n) : (scanResponseHeaders headers).hasFraming = true := by
  have hmem : ∃ header ∈ headers, header.1 = Bytes.contentLengthName := by
    induction headers with
    | nil => cases h
    | cons header headers ih =>
      obtain ⟨name, value⟩ := header
      by_cases hname : name = Bytes.contentLengthName
      · exact ⟨(name, value), List.mem_cons_self, hname⟩
      · rw [contentLength, if_neg hname] at h
        obtain ⟨header', hmem, hname'⟩ := ih h
        exact ⟨header', List.mem_cons_of_mem _ hmem, hname'⟩
  obtain ⟨header, hmem, hname⟩ := hmem
  exact hasFraming_of_mem hmem (by rw [hname]; decide)

/-- An answer that is not all there closes its connection. -/
theorem transfersAll_of_kept (hW : W.Documented framing closing closes) {e : Exchange} {c' : Ctx ω}
    (he : Fits closes e) (hfinish : e.answer.finishes = true)
    (h : (Ctx.methods W).answer e.answer (Ctx.start W e.method e.keepAlive e.drained e.faults) =
      .done c') (hkept : W.mustClose c'.parser = false) : e.answer.TransfersAll := by
  rcases he with hcloses | hall
  · obtain ⟨head, w, hsend, -, -, hmust, -⟩ := Ctx.answer_done hW h hfinish
    obtain ⟨-, hclosing, -, -⟩ := hW.response _ _ _ _ _ hsend
    cases hanswer : e.answer with
    | complete r body => trivial
    | stream r chunks ending => trivial
    | sendfile r count moved fails =>
      intro hlength
      have hsame : (Ctx.start W e.method e.keepAlive e.drained e.faults).toSend r = r := by
        rw [Ctx.toSend, if_neg]
        rintro ⟨-, hframing⟩
        rw [hasFraming_of_contentLength hlength] at hframing
        cases hframing
      rw [hanswer, Answer.response, hsame] at hclosing
      rw [hanswer, Answer.response] at hcloses
      rw [hmust, hclosing, hcloses] at hkept
      cases hkept
  · exact hall

/-- A fitting exchange keeps the connection sound. -/
theorem sound_serve (hW : W.Documented framing closing closes) {k : Conn} {e : Exchange}
    (h : k.Sound) (he : Fits closes e) : (serve W k e).Sound := by
  rw [serve]
  split
  · rename_i hready
    rw [Bool.and_eq_true, Bool.not_eq_true'] at hready
    refine h.answered hready.1 hready.2 fun hopen' hclosing' => ?_
    rcases (Ctx.lawful_methods W).handle_cases e.answer
      (c := Ctx.start W e.method e.keepAlive e.drained e.faults) rfl with
      hclosed | ⟨b, hb, hfinish, hanswer⟩
    · rw [hclosed] at hopen'
      cases hopen'
    · rcases hb with rfl | rfl
      · exact Ctx.exact_of_transfersAll hW hanswer hfinish
          (transfersAll_of_kept hW he hfinish hanswer hclosing')
      · exact Ctx.exact_of_transfersAll hW hanswer hfinish trivial
  · exact h.closed

end H11

/-- On both backends: in every run whose requests all meet the condition, the responses stay in step
with their declared lengths throughout. -/
theorem responses_in_step {ω : Type} {W : H11.Connection ω} {framing : ω → H11.Framing}
    {closing : ω → Bool} {closes : Bytes → Bool → Response → Bool}
    (hW : W.Documented framing closing closes) {es : List Httptools.Exchange}
    (hes : Httptools.system.Meets Httptools.Fits Conn.start es) {fs : List H11.Exchange}
    (hfs : (H11.system W).Meets (fun _ => H11.Fits closes) Conn.start fs) :
    Httptools.system.Throughout Conn.Sound Conn.start es ∧
      (H11.system W).Throughout Conn.Sound Conn.start fs := by
  constructor
  · refine Lts.throughout_of_meets (I := fun _ => True) (fun _ _ _ _ _ => trivial) ?_ trivial
      Conn.sound_start hes
    intro k e k' _ hsound hfits hstep
    rw [← Option.some.inj hstep]
    exact Httptools.sound_serve hsound hfits
  · refine Lts.throughout_of_meets (I := fun _ => True) (fun _ _ _ _ _ => trivial) ?_ trivial
      Conn.sound_start hfs
    intro k e k' _ hsound hfits hstep
    rw [← Option.some.inj hstep]
    exact H11.sound_serve hW hsound hfits

/-- `200` with `content-length: 5`. -/
def fiveBytes : Response := ⟨200, [(Bytes.contentLengthName, [53])], []⟩

/-- A request on httptools that is answered with these bytes. -/
def Httptools.Exchange.completes (body : Bytes) : Httptools.Exchange :=
  ⟨[71, 69, 84], true, false, false, .complete fiveBytes (some body), []⟩

/-- A request on h11 that is answered with a file of which the kernel moves these bytes. -/
def H11.Exchange.transfers (moved : Bytes) : H11.Exchange :=
  ⟨[71, 69, 84], true, true, .sendfile fiveBytes 5 moved false, []⟩

/-- A run that is in step: five bytes on either backend, and a second response behind them. -/
theorem five_bytes_in_step :
    Httptools.system.Throughout Conn.Sound Conn.start
        [.completes [104, 101, 108, 108, 111], .completes [119, 111, 114, 108, 100]] ∧
      (H11.system H11.Plain.connection).Throughout Conn.Sound Conn.start
        [.transfers [104, 101, 108, 108, 111], .transfers [119, 111, 114, 108, 100]] := by
  have hadds : ∀ n, fiveBytes.Declares n → 5 = n := fun n hdeclares =>
    (show fiveBytes.Declares 5 by decide).unique hdeclares
  have hes : Httptools.system.Meets Httptools.Fits Conn.start
      [.completes [104, 101, 108, 108, 111], .completes [119, 111, 114, 108, 100]] := by
    refine ⟨⟨fun h => Bool.noConfusion h, .inr fun n hdeclares _ => hadds n hdeclares⟩,
      fun _ _ => ?_⟩
    exact ⟨⟨fun h => Bool.noConfusion h, .inr fun n hdeclares _ => hadds n hdeclares⟩,
      fun _ _ => trivial⟩
  have hfs : (H11.system H11.Plain.connection).Meets (fun _ => H11.Fits H11.Plain.closes) Conn.start
      [.transfers [104, 101, 108, 108, 111], .transfers [119, 111, 114, 108, 100]] := by
    refine ⟨.inr fun _ _ => rfl, fun _ _ => ?_⟩
    exact ⟨.inr fun _ _ => rfl, fun _ _ => trivial⟩
  exact responses_in_step H11.Plain.documented hes hfs

/-- Three bytes are taken for five, on httptools of `complete` and on h11 of `sendfile`: the next
response follows. -/
theorem three_bytes_out_of_step :
    ¬Httptools.system.Throughout Conn.Sound Conn.start
        [.completes [104, 101, 108], .completes [104, 101, 108]] ∧
      ¬(H11.system H11.Plain.connection).Throughout Conn.Sound Conn.start
        [.transfers [104, 101, 108], .transfers [104, 101, 108]] := by
  have hfive : fiveBytes.Declares 5 := by decide
  have hshort : ∀ (k : Conn) (reply : Reply), reply ∈ k.replies.dropLast →
      reply.method = [71, 69, 84] → Item.head fiveBytes ∈ reply.wire →
      (bodyBytes reply.wire).length = 3 → ¬k.Sound := by
    intro k reply hmem hmethod hhead hlength hsound
    have hexact := hsound.earlier reply hmem fiveBytes hhead 5 hfive (by rw [hmethod]; decide)
    omega
  constructor
  · intro h
    have hlast := (h.2 _ rfl).2 _ rfl
    exact hshort _ ⟨[71, 69, 84], [.head fiveBytes, .bytes [104, 101, 108]]⟩ (by decide) rfl
      (by decide) (by decide) hlast
  · intro h
    have hlast := (h.2 _ rfl).2 _ rfl
    exact hshort _ ⟨[71, 69, 84], [.head fiveBytes, .bytes [], .bytes [104, 101, 108]]⟩
      (by decide) rfl (by decide) (by decide) hlast

end LocalPost.Http.Writer
