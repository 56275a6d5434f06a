import LocalPost.Core.ListEntries
import LocalPost.Http.Httptools.Conn

/-!
# The requests in a stream of callbacks

`Stream` follows the callbacks of the parser without the slots of the connection: it says which
requests the bytes received so far contain, whatever the server does with them. `Ordered` is what
the order of the callbacks gives: only the last request can be incomplete, and it is so inside a
body.
-/

set_option autoImplicit false

namespace LocalPost.Http.Httptools

open LocalPost.Core

/-- Where a stream of callbacks stands: between two requests, in a head, in a body. -/
inductive Stage where
  | idle
  | head
  | body
  deriving DecidableEq, Repr

/-- The order in which the parser fires its callbacks. -/
def Stage.next : Stage → Callback → Option Stage
  | .idle, .messageBegin => some .head
  | .head, .url _ => some .head
  | .head, .header _ _ => some .head
  | .head, .headersComplete _ _ _ => some .body
  | .body, .body _ => some .body
  | .body, .messageComplete => some .idle
  | _, _ => none

/-- The callbacks of any number of requests, the last one possibly cut. -/
def valid : Stage → List Callback → Bool
  | _, [] => true
  | stage, cb :: cbs =>
    match stage.next cb with
    | some stage' => valid stage' cbs
    | none => false

/-- A request whose head has been received, and what has been received of its body. -/
structure Msg where
  request : Request
  keepAlive : Bool
  body : Bytes
  complete : Bool
  deriving DecidableEq, Repr

/-- The requests received so far, and the head in progress. -/
structure Stream where
  stage : Stage
  target : Bytes
  headers : List (Bytes × Bytes)
  msgs : List Msg
  deriving DecidableEq, Repr

/-- The last request changed. -/
def Stream.modifyLast (r : Stream) (f : Msg → Msg) : List Msg := r.msgs.modify (r.msgs.length - 1) f

/-- The stream after one more callback. -/
def Stream.observe (r : Stream) (cb : Callback) : Stream :=
  let stage := (r.stage.next cb).getD r.stage
  match cb with
  | .messageBegin => { r with stage := stage, target := [], headers := [] }
  | .url url => { r with stage := stage, target := r.target ++ url }
  | .header name value =>
    { r with stage := stage, headers := r.headers ++ [(name.lower, value.rstripOws)] }
  | .headersComplete method version keepAlive =>
    { r with
      stage := stage
      msgs := r.msgs ++
        [⟨Request.ofTarget method r.target r.headers version, keepAlive, [], false⟩] }
  | .body data =>
    { r with stage := stage, msgs := r.modifyLast fun m => { m with body := m.body ++ data } }
  | .messageComplete =>
    { r with stage := stage, msgs := r.modifyLast fun m => { m with complete := true } }

/-! ## Stage and order -/

section Next

variable {stage stage' : Stage}

theorem next_messageBegin (h : stage.next .messageBegin = some stage') :
    stage = .idle ∧ stage' = .head := by
  cases stage <;> cases h
  exact ⟨rfl, rfl⟩

theorem next_url {url : Bytes} (h : stage.next (.url url) = some stage') :
    stage = .head ∧ stage' = .head := by
  cases stage <;> cases h
  exact ⟨rfl, rfl⟩

theorem next_header {name value : Bytes} (h : stage.next (.header name value) = some stage') :
    stage = .head ∧ stage' = .head := by
  cases stage <;> cases h
  exact ⟨rfl, rfl⟩

theorem next_headersComplete {method version : Bytes} {keepAlive : Bool}
    (h : stage.next (.headersComplete method version keepAlive) = some stage') :
    stage = .head ∧ stage' = .body := by
  cases stage <;> cases h
  exact ⟨rfl, rfl⟩

theorem next_body {data : Bytes} (h : stage.next (.body data) = some stage') :
    stage = .body ∧ stage' = .body := by
  cases stage <;> cases h
  exact ⟨rfl, rfl⟩

theorem next_messageComplete (h : stage.next .messageComplete = some stage') :
    stage = .body ∧ stage' = .idle := by
  cases stage <;> cases h
  exact ⟨rfl, rfl⟩

theorem valid_cons {cb : Callback} {cbs : List Callback} (h : valid stage (cb :: cbs) = true) :
    ∃ stage', stage.next cb = some stage' ∧ valid stage' cbs = true := by
  unfold valid at h
  split at h
  · rename_i stage' hnext
    exact ⟨stage', hnext, h⟩
  · cases h

end Next

namespace Stream

variable {r : Stream} {cb : Callback} {stage : Stage}

theorem stage_observe (hnext : r.stage.next cb = some stage) : (r.observe cb).stage = stage := by
  cases cb <;> simp [observe, hnext]

/-- A request that is not complete is the last one, and its body is being received. -/
structure Ordered (r : Stream) : Prop where
  last : ∀ k m, r.msgs[k]? = some m → m.complete = false →
    k + 1 = r.msgs.length ∧ r.stage = .body
  inBody : r.stage = .body → ∃ m, r.msgs[r.msgs.length - 1]? = some m ∧ m.complete = false

theorem Ordered.complete (ho : Ordered r) {k : Nat} {m : Msg} (hm : r.msgs[k]? = some m)
    (hne : r.stage ≠ .body) : m.complete = true := by
  rw [← Bool.not_eq_false]
  exact fun hf => hne (ho.last k m hm hf).2

/-- The next callback keeps the requests in order. -/
theorem Ordered.observe (ho : Ordered r) (hnext : r.stage.next cb = some stage) :
    Ordered (r.observe cb) := by
  have hstage := stage_observe hnext
  -- The callbacks of a head leave the requests alone; there all of them are complete.
  have hhead : (r.observe cb).msgs = r.msgs → r.stage ≠ .body → stage ≠ .body →
      Ordered (r.observe cb) := by
    intro hmsgs hne hne'
    constructor
    · intro k m hm hf
      rw [hmsgs] at hm
      exact absurd (ho.complete hm hne) (by simp [hf])
    · intro hb
      exact absurd (hstage.symm.trans hb) hne'
  cases cb with
  | messageBegin =>
    obtain ⟨hs, rfl⟩ := next_messageBegin hnext
    exact hhead rfl (by simp [hs]) (by simp)
  | url url =>
    obtain ⟨hs, rfl⟩ := next_url hnext
    exact hhead rfl (by simp [hs]) (by simp)
  | header name value =>
    obtain ⟨hs, rfl⟩ := next_header hnext
    exact hhead rfl (by simp [hs]) (by simp)
  | headersComplete method version keepAlive =>
    obtain ⟨hs, rfl⟩ := next_headersComplete hnext
    constructor
    · intro k m hm hf
      simp only [Stream.observe, List.length_append, List.length_singleton]
      rcases getElem?_concat_iff.1 hm with hold | ⟨hk, -⟩
      · exact absurd (ho.complete hold (by simp [hs])) (by simp [hf])
      · exact ⟨by rw [hk], hstage⟩
    · intro _
      exact ⟨_, getElem?_concat_iff.2 (.inr ⟨by simp [Stream.observe], rfl⟩), rfl⟩
  | body data =>
    obtain ⟨hs, rfl⟩ := next_body hnext
    constructor
    · intro k m hm hf
      simp only [Stream.observe, modifyLast, List.length_modify]
      obtain ⟨m₀, hm₀, rfl⟩ := getElem?_modify_iff.1 hm
      have hf₀ : m₀.complete = false := by
        split at hf
        · exact hf
        · exact hf
      exact ⟨(ho.last k m₀ hm₀ hf₀).1, hstage⟩
    · intro _
      obtain ⟨m₀, hm₀, hf₀⟩ := ho.inBody hs
      refine ⟨{ m₀ with body := m₀.body ++ data }, ?_, hf₀⟩
      simp only [Stream.observe, modifyLast, List.length_modify]
      exact getElem?_modify_iff.2 ⟨m₀, hm₀, if_pos rfl⟩
  | messageComplete =>
    obtain ⟨hs, rfl⟩ := next_messageComplete hnext
    constructor
    · intro k m hm hf
      obtain ⟨m₀, hm₀, rfl⟩ := getElem?_modify_iff.1 hm
      split at hf
      · cases hf
      · rename_i hne
        have hlast := (ho.last k m₀ hm₀ hf).1
        exact absurd (by omega) hne
    · intro hb
      cases hstage.symm.trans hb

/-- A request keeps its head, and its body grows. -/
theorem observe_grows (cb : Callback) {k : Nat} {m : Msg} (hm : r.msgs[k]? = some m) :
    ∃ m', (r.observe cb).msgs[k]? = some m' ∧ m'.request = m.request ∧ m.body <+: m'.body := by
  have hkeep : (r.observe cb).msgs[k]? = some m →
      ∃ m', (r.observe cb).msgs[k]? = some m' ∧ m'.request = m.request ∧ m.body <+: m'.body :=
    fun h => ⟨m, h, rfl, List.prefix_rfl⟩
  cases cb with
  | messageBegin => exact hkeep hm
  | url url => exact hkeep hm
  | header name value => exact hkeep hm
  | headersComplete method version keepAlive => exact hkeep (getElem?_concat_iff.2 (.inl hm))
  | body data =>
    refine ⟨_, getElem?_modify_iff.2 ⟨m, hm, rfl⟩, ?_⟩
    split
    · exact ⟨rfl, List.prefix_append _ _⟩
    · exact ⟨rfl, List.prefix_rfl⟩
  | messageComplete =>
    refine ⟨_, getElem?_modify_iff.2 ⟨m, hm, rfl⟩, ?_⟩
    split
    · exact ⟨rfl, List.prefix_rfl⟩
    · exact ⟨rfl, List.prefix_rfl⟩

/-- A complete request does not change: the one that does is the incomplete one. -/
theorem observe_complete (ho : Ordered r) (hnext : r.stage.next cb = some stage) {k : Nat} {m : Msg}
    (hm : r.msgs[k]? = some m) (hc : m.complete = true) : (r.observe cb).msgs[k]? = some m := by
  have hother : r.stage = .body → r.msgs.length - 1 ≠ k := by
    rintro hs rfl
    obtain ⟨m', hm', hf⟩ := ho.inBody hs
    cases hm.symm.trans hm'
    cases hc.symm.trans hf
  cases cb with
  | messageBegin => exact hm
  | url url => exact hm
  | header name value => exact hm
  | headersComplete method version keepAlive => exact getElem?_concat_iff.2 (.inl hm)
  | body data => exact getElem?_modify_iff.2 ⟨m, hm, if_neg (hother (next_body hnext).1)⟩
  | messageComplete =>
    exact getElem?_modify_iff.2 ⟨m, hm, if_neg (hother (next_messageComplete hnext).1)⟩

end Stream

end LocalPost.Http.Httptools
