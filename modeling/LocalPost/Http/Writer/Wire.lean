import LocalPost.Http.Writer.Message

/-!
# The socket under a response

What was written to a connection is a list of heads and bytes. The head of a response is kept back
until the first bytes behind it. A send may fail after some of its items; the socket's faults are
given in advance, one for each send.
-/

set_option autoImplicit false

namespace LocalPost.Http.Writer

/-- A part of what was written: a head, by the response it serialises, or bytes. -/
inductive Item where
  | head (r : Response)
  | bytes (b : Bytes)
  deriving DecidableEq, Repr

/-- The bytes behind the heads. -/
def bodyBytes (wire : List Item) : Bytes :=
  wire.flatMap fun item =>
    match item with
    | .head _ => []
    | .bytes b => b

@[simp] theorem bodyBytes_append (wire items : List Item) :
    bodyBytes (wire ++ items) = bodyBytes wire ++ bodyBytes items := List.flatMap_append

@[simp] theorem bodyBytes_head (r : Response) : bodyBytes [.head r] = [] := rfl

@[simp] theorem bodyBytes_bytes (b : Bytes) : bodyBytes [.bytes b] = b := List.append_nil b

@[simp] theorem bodyBytes_head_bytes (r : Response) (b : Bytes) :
    bodyBytes [.head r, .bytes b] = b :=
  List.append_nil b

/-- Each head that declares a length has a body of that length behind it. -/
def Exact (method : Bytes) (wire : List Item) : Prop :=
  ∀ r, Item.head r ∈ wire → ∀ n, r.Declares n → mayCarryBody method r.statusCode = true →
    (bodyBytes wire).length = n

/-- What the context's methods raise. -/
inductive Exc where
  | valueError
  | sendFailed
  | localProtocolError
  | iteration
  deriving DecidableEq, Repr

/-- How a method ends: with its state, and whether it raised. -/
inductive Outcome (σ : Type) where
  | done (c : σ)
  | raised (e : Exc) (c : σ)

/-- One method after the other. -/
def Outcome.andThen {σ : Type} (o : Outcome σ) (f : σ → Outcome σ) : Outcome σ :=
  match o with
  | .done c => f c
  | .raised e c => .raised e c

/-- A method of a part of the state. -/
def Outcome.map {σ τ : Type} (f : σ → τ) : Outcome σ → Outcome τ
  | .done c => .done (f c)
  | .raised e c => .raised e (f c)

/-- The state at the end. -/
def Outcome.state {σ : Type} : Outcome σ → σ
  | .done c => c
  | .raised _ c => c

/-- What each of two methods keeps, both keep. -/
theorem Outcome.state_andThen {σ : Type} {P : σ → Prop} {o : Outcome σ} {f : σ → Outcome σ}
    (h : P o.state) (hf : ∀ c, P c → P (f c).state) : P (o.andThen f).state := by
  cases o with
  | done c => exact hf c h
  | raised e c => exact h

theorem Outcome.andThen_done {σ : Type} {o : Outcome σ} {f : σ → Outcome σ} {c : σ}
    (h : o.andThen f = .done c) : ∃ c', o = .done c' ∧ f c' = .done c := by
  cases o with
  | done c' => exact ⟨c', rfl, h⟩
  | raised e c' => cases h

/-! ## Sending -/

/-- What was written, `_pending_header_bytes` by the response they serialise, and the faults to
come. -/
structure Out where
  wire : List Item
  pending : Option Response
  faults : List (Option Nat)
  deriving DecidableEq, Repr

namespace Out

/-- `_send_all`. -/
def sendAll (items : List Item) (o : Out) : Outcome Out :=
  match o.faults with
  | some k :: faults =>
    .raised .sendFailed { o with faults := faults, wire := o.wire ++ items.take k }
  | none :: faults => .done { o with faults := faults, wire := o.wire ++ items }
  | [] => .done { o with wire := o.wire ++ items }

/-- The pending head goes out with the bytes behind it, which may be none. -/
def flush (b : Bytes) (o : Out) : Outcome Out :=
  match o.pending with
  | some response => sendAll [.head response, .bytes b] { o with pending := none }
  | none => if b = [] then .done o else o.sendAll [.bytes b]

/-- The bytes `b` have gone out behind the pending head. -/
structure Pushes (b : Bytes) (o o' : Out) : Prop where
  body : bodyBytes o'.wire = bodyBytes o.wire ++ b
  heads : ∀ r, Item.head r ∈ o'.wire → Item.head r ∈ o.wire ∨ o.pending = some r
  pending : ∀ r, o'.pending = some r → o.pending = some r

theorem Pushes.refl (o : Out) : Pushes [] o o where
  body := (List.append_nil _).symm
  heads := fun _ h => .inl h
  pending := fun _ h => h

theorem Pushes.trans {b b' : Bytes} {o o' o'' : Out} (h : Pushes b o o') (h' : Pushes b' o' o'') :
    Pushes (b ++ b') o o'' where
  body := by rw [h'.body, h.body, List.append_assoc]
  heads := fun r hr => (h'.heads r hr).elim (h.heads r) fun hp => .inr (h.pending r hp)
  pending := fun r hr => h.pending r (h'.pending r hr)

theorem sendAll_done {items : List Item} {o o' : Out} (h : o.sendAll items = .done o') :
    o'.wire = o.wire ++ items ∧ o'.pending = o.pending := by
  rw [sendAll] at h
  split at h
  · cases h
  · cases h
    exact ⟨rfl, rfl⟩
  · cases h
    exact ⟨rfl, rfl⟩

/-- A write that returns has pushed its bytes. -/
theorem flush_done {b : Bytes} {o o' : Out} (h : o.flush b = .done o') : Pushes b o o' := by
  rw [flush] at h
  -- the pending head goes out with the bytes
  cases hpending : o.pending with
  | some response =>
    rw [hpending] at h
    obtain ⟨hwire, hnone⟩ := sendAll_done h
    refine ⟨?_, fun r hr => ?_, fun r hr => ?_⟩
    · rw [hwire, bodyBytes_append, bodyBytes_head_bytes]
    · rw [hwire] at hr
      rcases List.mem_append.1 hr with hr | hr
      · exact .inl hr
      · simp only [List.mem_cons, Item.head.injEq, reduceCtorEq, List.not_mem_nil, or_false] at hr
        exact .inr (by rw [hpending, hr])
    · rw [hnone] at hr
      cases hr
  | none =>
    rw [hpending] at h
    -- nothing pending and no bytes: nothing is written
    by_cases hempty : b = []
    · rw [hempty] at h ⊢
      cases h
      exact Pushes.refl o
    · simp only [if_neg hempty] at h
      obtain ⟨hwire, hsame⟩ := sendAll_done h
      refine ⟨?_, fun r hr => ?_, fun r hr => ?_⟩
      · rw [hwire, bodyBytes_append, bodyBytes_bytes]
      · rw [hwire] at hr
        exact .inl (by simpa using hr)
      · rw [hsame] at hr
        rw [hpending] at hr
        cases hr

/-- Bytes that go out past the buffer. -/
theorem pushes_bytes (b : Bytes) (o : Out) :
    Pushes b o { o with wire := o.wire ++ [.bytes b] } where
  body := by rw [bodyBytes_append, bodyBytes_bytes]
  heads := fun r hr => .inl (by simpa using hr)
  pending := fun _ h => h

/-! ## A socket without faults -/

theorem sendAll_of_no_faults {o : Out} (h : o.faults = []) (items : List Item) :
    o.sendAll items = .done { o with wire := o.wire ++ items } := by
  rw [sendAll, h]

/-- Without faults every flush succeeds. -/
theorem flush_of_no_faults {o : Out} (h : o.faults = []) (b : Bytes) :
    ∃ o', o.flush b = .done o' ∧ o'.faults = [] := by
  rw [Out.flush]
  cases o.pending with
  | some response =>
    refine ⟨_, sendAll_of_no_faults ?_ _, ?_⟩
    · exact h
    · exact h
  | none =>
    by_cases hempty : b = []
    · exact ⟨o, if_pos hempty, h⟩
    · exact ⟨_, (if_neg hempty).trans (sendAll_of_no_faults h _), h⟩

end Out

end LocalPost.Http.Writer
