import LocalPost.Core.Lts
import LocalPost.Openapi.Document

/-!
# The cached document

An app keeps its document and the bytes of it until the next registration. Both caches are read and
written under one lock, but `_openapi_bytes` lets go of it between the document and the store of its
bytes. A registration in between is not seen: the old bytes are stored behind it, and served from
then on (`stale_bytes`). `HttpAsyncApp` has the same code.
-/

set_option autoImplicit false

namespace LocalPost.Openapi.Document

open LocalPost.Core

variable {V : Vocabulary}

/-- What the lock protects. -/
structure Cache (V : Vocabulary) where
  operations : List (Operation V)
  cached_spec : Option (OpenAPI V)
  cached_spec_bytes : Option (List UInt8)

namespace Cache

/-- A new app. -/
def empty : Cache V := ⟨[], none, none⟩

/-- The critical section of `deco`. -/
def register (c : Cache V) (op : Operation V) : Cache V := ⟨c.operations ++ [op], none, none⟩

/-- `openapi_doc`; it holds the lock from its first line to its last. -/
def openapiDoc (app : Config V) (c : Cache V) : Option (OpenAPI V × Cache V) :=
  match c.cached_spec with
  | some cached => some (cached, c)
  | none => (app.generate c.operations).map fun doc => (doc, { c with cached_spec := some doc })

/-- `_openapi_bytes` when no other thread comes in between. -/
def openapiBytes (app : Config V) (c : Cache V) : Option (List UInt8 × Cache V) :=
  match c.cached_spec_bytes with
  | some cached => some (cached, c)
  | none => (c.openapiDoc app).bind fun found => (app.to_json found.1).map fun body =>
    (body, { found.2 with cached_spec_bytes := some body })

/-- What is cached is of the operations that are registered. -/
structure Coherent (app : Config V) (c : Cache V) : Prop where
  spec : ∀ doc, c.cached_spec = some doc → app.generate c.operations = some doc
  bytes : ∀ body, c.cached_spec_bytes = some body →
    (app.generate c.operations).bind app.to_json = some body

namespace Coherent

variable {app : Config V} {c : Cache V}

theorem empty : Coherent app (.empty : Cache V) :=
  ⟨fun doc h => (by cases h), fun body h => (by cases h)⟩

theorem register (op : Operation V) : Coherent app (c.register op) :=
  ⟨fun doc h => (by cases h), fun body h => (by cases h)⟩

/-- The two caches are of the same document. -/
theorem same (h : Coherent app c) {doc : OpenAPI V} {body : List UInt8}
    (hspec : c.cached_spec = some doc)
    (hbytes : c.cached_spec_bytes = some body) : app.to_json doc = some body := by
  have hbody := h.bytes body hbytes
  rw [h.spec doc hspec] at hbody
  exact hbody

end Coherent

variable {app : Config V} {c : Cache V}

theorem openapiDoc_eq (h : ∀ doc, c.cached_spec = some doc → app.generate c.operations = some doc) :
    (c.openapiDoc app).map Prod.fst = app.generate c.operations := by
  rw [openapiDoc]
  cases hspec : c.cached_spec with
  | some cached => exact (h cached hspec).symm
  | none =>
    exact (Option.map_map _ _ _).trans Option.map_id'

/-- `openapi_doc` changes nothing but its own cache, and that to the document it returns. -/
theorem openapiDoc_spec {doc : OpenAPI V} {c' : Cache V} (h : c.openapiDoc app = some (doc, c')) :
    c' = { c with cached_spec := some doc } ∧
      (c.cached_spec = some doc ∨ app.generate c.operations = some doc) := by
  rw [openapiDoc] at h
  cases hspec : c.cached_spec with
  | some cached =>
    rw [hspec] at h
    cases h
    exact ⟨by rw [← hspec], .inl rfl⟩
  | none =>
    rw [hspec] at h
    obtain ⟨generated, hgenerate, heq⟩ := Option.map_eq_some_iff.1 h
    cases heq
    exact ⟨rfl, .inr hgenerate⟩

/-- From a coherent cache `_openapi_bytes` returns the bytes of the operations that are
registered. -/
theorem openapiBytes_eq (h : Coherent app c) :
    (c.openapiBytes app).map Prod.fst = (app.generate c.operations).bind app.to_json := by
  rw [openapiBytes]
  cases hbytes : c.cached_spec_bytes with
  | some cached => exact (h.bytes cached hbytes).symm
  | none =>
    rw [← openapiDoc_eq h.spec]
    cases c.openapiDoc app with
    | none => rfl
    | some found =>
      exact (Option.map_map _ _ _).trans Option.map_id'

end Cache

/-! ## The threads -/

/-- What a thread asks for. -/
inductive Request (V : Vocabulary) where
  | register (op : Operation V)
  | doc
  | bytes

/-- A thread. `deco` has created its operation and waits for the lock, as `openapi_doc` and
`_openapi_bytes` do. Then `_openapi_bytes` has found no bytes, and then it has the document and
renders it. `seen` counts the operations that were registered when it got the document; the code
does not keep it. -/
inductive Thread (V : Vocabulary) where
  | idle
  | register (op : Operation V)
  | doc
  | bytes
  | missed
  | rendering (doc : OpenAPI V) (seen : Nat)

/-- Where a request begins. -/
def Request.start : Request V → Thread V
  | .register op => .register op
  | .doc => .doc
  | .bytes => .bytes

/-- The app with its threads. -/
structure State (V : Vocabulary) where
  cache : Cache V
  threads : Nat → Thread V

/-- A thread takes up a request, or goes on to its next release of the lock. -/
inductive Act (V : Vocabulary) where
  | call (i : Nat) (request : Request V)
  | step (i : Nat)

namespace State

variable {app : Config V}

/-- Thread `i` has come to `thread`. -/
def moved (s : State V) (i : Nat) (c : Cache V) (thread : Thread V) : State V :=
  ⟨c, Function.update s.threads i thread⟩

/-- The next step of thread `i`. An exception ends the request. -/
def advance (app : Config V) (s : State V) (i : Nat) : Option (State V) :=
  match s.threads i with
  | .idle => none
  | .register op => some (s.moved i (s.cache.register op) .idle)
  | .doc =>
    match s.cache.openapiDoc app with
    | some (_, c) => some (s.moved i c .idle)
    | none => some (s.moved i s.cache .idle)
  | .bytes =>
    match s.cache.cached_spec_bytes with
    | some _ => some (s.moved i s.cache .idle)
    | none => some (s.moved i s.cache .missed)
  | .missed =>
    match s.cache.openapiDoc app with
    | some (doc, c) => some (s.moved i c (.rendering doc c.operations.length))
    | none => some (s.moved i s.cache .idle)
  | .rendering doc _ =>
    match app.to_json doc with
    | some body => some (s.moved i { s.cache with cached_spec_bytes := some body } .idle)
    | none => some (s.moved i s.cache .idle)

/-- One step. -/
def step (app : Config V) (s : State V) : Act V → Option (State V)
  | .call i request =>
    match s.threads i with
    | .idle => some (s.moved i s.cache request.start)
    | _ => none
  | .step i => s.advance app i

/-- A new app, with no request in flight. -/
def start : State V := ⟨.empty, fun _ => .idle⟩

/-- No registration and no read is in flight. -/
def Quiet (s : State V) : Prop := ∀ i, s.threads i = .idle

/-- The condition on a step: bytes are stored only if nothing was registered since their document
was read. -/
def InTime (s : State V) : Act V → Prop
  | .call _ _ => True
  | .step i => ∀ doc seen, s.threads i = .rendering doc seen → seen = s.cache.operations.length

/-- In any run: the cached document is that of the registered operations, and a reader's document
was that of the first `seen` of them. -/
structure Kept (app : Config V) (s : State V) : Prop where
  spec : ∀ doc, s.cache.cached_spec = some doc → app.generate s.cache.operations = some doc
  reading : ∀ i doc seen, s.threads i = .rendering doc seen →
    seen ≤ s.cache.operations.length ∧ app.generate (s.cache.operations.take seen) = some doc

theorem Kept.start : Kept app (start : State V) :=
  ⟨fun doc h => (by cases h), fun i doc seen h => (by cases h)⟩

/-- What is true of the threads before and of the new one is true of all threads after. -/
theorem of_moved {s : State V} {i : Nat} {c : Cache V} {thread : Thread V}
    {P : Nat → Thread V → Prop}
    (hthread : P i thread) (hothers : ∀ j, P j (s.threads j)) (j : Nat) :
    P j ((s.moved i c thread).threads j) := by
  change P j (Function.update s.threads i thread j)
  by_cases hj : j = i
  · subst hj
    rw [Function.update_self]
    exact hthread
  · rw [Function.update_of_ne hj]
    exact hothers j

/-- A thread that has no document moves, over the same operations. -/
theorem Kept.moved {s : State V} (h : Kept app s) {i : Nat} {c : Cache V} {thread : Thread V}
    (hops : c.operations = s.cache.operations)
    (hspec : ∀ doc, c.cached_spec = some doc → app.generate c.operations = some doc)
    (hthread : ∀ doc seen, thread = .rendering doc seen →
      seen ≤ c.operations.length ∧ app.generate (c.operations.take seen) = some doc) :
    Kept app (s.moved i c thread) := by
  refine ⟨hspec, fun j => ?_⟩
  refine of_moved (P := fun _ thread => ∀ doc seen, thread = .rendering doc seen →
    seen ≤ c.operations.length ∧ app.generate (c.operations.take seen) = some doc)
      hthread (fun j => ?_) j
  rw [hops]
  exact h.reading j

theorem Kept.openapiDoc {s : State V} (h : Kept app s) {doc : OpenAPI V} {c : Cache V}
    (hdoc : s.cache.openapiDoc app = some (doc, c)) :
    c = { s.cache with cached_spec := some doc } ∧ app.generate s.cache.operations = some doc := by
  obtain ⟨hcache, hcached | hgenerate⟩ := Cache.openapiDoc_spec hdoc
  · exact ⟨hcache, h.spec doc hcached⟩
  · exact ⟨hcache, hgenerate⟩

/-- What a step does: a registration; a look for the document, behind which the request is over or
goes on to its rendering; nothing to the caches; the store of rendered bytes. -/
inductive Moves (app : Config V) (s : State V) : Act V → State V → Prop where
  | registers (i : Nat) (op : Operation V) : Moves app s (.step i)
    (s.moved i (s.cache.register op) .idle)
  | reads (i : Nat) {doc : OpenAPI V} {c : Cache V} {thread : Thread V}
      (hdoc : s.cache.openapiDoc app = some (doc, c))
      (hthread : thread = .idle ∨ thread = .rendering doc c.operations.length) :
      Moves app s (.step i) (s.moved i c thread)
  | passes (i : Nat) {a : Act V} {thread : Thread V}
    (hthread : ∀ doc seen, thread ≠ .rendering doc seen) :
      Moves app s a (s.moved i s.cache thread)
  | stores (i : Nat) {doc : OpenAPI V} {seen : Nat} {body : List UInt8}
      (hthread : s.threads i = .rendering doc seen) (hbody : app.to_json doc = some body) :
      Moves app s (.step i) (s.moved i { s.cache with cached_spec_bytes := some body } .idle)

/-- What a step of a thread does to the cache. -/
theorem moves_advance {s t : State V} {i : Nat} (h : s.advance app i = some t) :
    Moves app s (.step i) t := by
  have hidle : ∀ doc seen, (Thread.idle : Thread V) ≠ .rendering doc seen :=
    fun doc seen h => by cases h
  rw [advance] at h
  cases hthread : s.threads i with
  | idle =>
    rw [hthread] at h
    cases h
  | register op =>
    rw [hthread] at h
    cases h
    exact .registers i op
  -- Here and at `missed` the cached document is read, or built when there is none.
  | doc =>
    rw [hthread] at h
    cases hdoc : s.cache.openapiDoc app with
    | none =>
      rw [hdoc] at h
      cases h
      exact .passes i hidle
    | some found =>
      rw [hdoc] at h
      cases h
      exact .reads i hdoc (.inl rfl)
  | bytes =>
    rw [hthread] at h
    cases hbytes : s.cache.cached_spec_bytes with
    | none =>
      rw [hbytes] at h
      cases h
      exact .passes i fun doc seen h => by cases h
    | some body =>
      rw [hbytes] at h
      cases h
      exact .passes i hidle
  | missed =>
    rw [hthread] at h
    cases hdoc : s.cache.openapiDoc app with
    | none =>
      rw [hdoc] at h
      cases h
      exact .passes i hidle
    | some found =>
      rw [hdoc] at h
      cases h
      exact .reads i hdoc (.inr rfl)
  | rendering doc seen =>
    rw [hthread] at h
    dsimp only at h
    cases hbody : app.to_json doc with
    | none =>
      rw [hbody] at h
      cases h
      exact .passes i hidle
    | some body =>
      rw [hbody] at h
      cases h
      exact .stores i hthread hbody

theorem moves_step {s t : State V} {a : Act V} (h : s.step app a = some t) : Moves app s a t := by
  cases a with
  | call i request =>
    rw [step] at h
    split at h
    · cases h
      exact .passes i fun doc seen hstart => by cases request <;> cases hstart
    · cases h
  | step i => exact moves_advance h

/-- Nothing that a step does takes from what any run keeps. -/
theorem Kept.step {s t : State V} {a : Act V} (h : Kept app s) (hstep : s.step app a = some t) :
    Kept app t := by
  cases moves_step hstep with
  | registers i op =>
    refine ⟨fun doc h => (by cases h), fun j => ?_⟩
    -- the operations that a reader has seen come before the new one
    refine of_moved (P := fun _ thread => ∀ doc seen, thread = .rendering doc seen →
      seen ≤ (s.cache.register op).operations.length ∧
        app.generate ((s.cache.register op).operations.take seen) = some doc)
      (fun doc seen h => by cases h) (fun j doc seen hj => ?_) j
    obtain ⟨hle, hdoc⟩ := h.reading j doc seen hj
    change seen ≤ (s.cache.operations ++ [op]).length ∧
      app.generate ((s.cache.operations ++ [op]).take seen) = some doc
    rw [List.take_append_of_le_length hle, List.length_append]
    exact ⟨Nat.le_add_right_of_le hle, hdoc⟩
  | reads i hdoc hthread =>
    obtain ⟨rfl, hgenerate⟩ := h.openapiDoc hdoc
    refine h.moved rfl (fun d hd => ?_) (fun d seen hd => ?_)
    · cases hd
      exact hgenerate
    · rcases hthread with rfl | rfl
      · cases hd
      · cases hd
        exact ⟨Nat.le_refl _, by rw [List.take_length]; exact hgenerate⟩
  | passes i hthread => exact h.moved rfl h.spec fun d seen hd => absurd hd (hthread d seen)
  | stores i hthread hbody => exact h.moved rfl h.spec fun d seen hd => by cases hd

/-- Bytes that are stored in time are of the registered operations. -/
theorem Coherent.step {s t : State V} {a : Act V} (hkept : Kept app s) (h : s.cache.Coherent app)
    (htime : s.InTime a) (hstep : s.step app a = some t) : t.cache.Coherent app := by
  cases moves_step hstep with
  | registers i op => exact .register op
  | reads i hdoc hthread =>
    obtain ⟨rfl, hgenerate⟩ := hkept.openapiDoc hdoc
    refine ⟨fun d hd => ?_, h.bytes⟩
    cases hd
    exact hgenerate
  | passes i hthread => exact h
  | @stores i doc seen body hthread hbody =>
    refine ⟨h.spec, fun b hb => ?_⟩
    cases hb
    have hseen := htime doc seen hthread
    have hdoc := (hkept.reading i doc seen hthread).2
    rw [hseen, List.take_length] at hdoc
    change (app.generate s.cache.operations).bind app.to_json = some body
    rw [hdoc]
    exact hbody

/-- What a read returns that begins here and that no registration interrupts: the document of the
registered operations and its bytes. -/
structure Fresh (app : Config V) (s : State V) : Prop where
  coherent : s.cache.Coherent app
  same : ∀ doc body, s.cache.cached_spec = some doc → s.cache.cached_spec_bytes = some body →
    app.to_json doc = some body
  doc : (s.cache.openapiDoc app).map Prod.fst = app.generate s.cache.operations
  bytes : (s.cache.openapiBytes app).map Prod.fst =
    (app.generate s.cache.operations).bind app.to_json
  describes : ∀ doc c, s.cache.openapiDoc app = some (doc, c) → ∀ op ∈ s.cache.operations,
    doc.Describes op.path op.method.value

theorem Fresh.of_coherent {s : State V} (h : s.cache.Coherent app) : Fresh app s := by
  refine ⟨h, fun doc body => h.same, Cache.openapiDoc_eq h.spec, Cache.openapiBytes_eq h, ?_⟩
  intro doc c hdoc op hop
  have hgenerate : app.generate s.cache.operations = some doc := by
    rw [← Cache.openapiDoc_eq h.spec, hdoc]
    rfl
  exact Config.describes_of_generate hgenerate hop

end State

/-- An app and its threads. -/
def system (app : Config V) : Lts (State V) (Act V) where
  init := fun s => s = .start
  step := State.step app

/-- The cached document is in every run that of the registered operations. If no bytes are stored
behind a registration that their document has not seen, both caches are so in every state of the
run, with requests in flight or without, and a read returns what is registered. -/
theorem coherent_of_inTime (app : Config V) {as : List (Act V)}
    (h : (system app).Meets State.InTime .start as) :
    (system app).Throughout (State.Fresh app) .start as ∧
      ∀ t, (system app).Reachable t → ∀ doc, t.cache.cached_spec = some doc →
        app.generate t.cache.operations = some doc := by
  constructor
  · refine Lts.Throughout.mono (fun s => State.Fresh.of_coherent) ?_
    exact Lts.throughout_of_meets (I := State.Kept app) (P := fun s => s.cache.Coherent app)
      (fun s a t hs hstep => hs.step hstep)
      (fun s a t hs hP hC hstep => State.Coherent.step hs hP hC hstep) .start .empty h
  · intro t ht
    have hkept : State.Kept app t := by
      refine Lts.invariant (fun s hs => ?_) (fun s a t hs hstep => hs.step hstep) ht
      rw [show s = State.start from hs]
      exact .start
    exact hkept.spec

/-! ## A registration that is hidden -/

/-- Nothing but paths and operations. -/
abbrev Plain : Vocabulary := ⟨Unit, Unit, Unit, Unit, Unit⟩

/-- No middleware and no schema; a document is rendered as the number of its paths. -/
def bare : Config Plain where
  info := ()
  middlewares := []
  registry := ()
  components := fun _ => some []
  to_json := fun doc => some [UInt8.ofNat doc.paths.length]

/-- `GET /a`. -/
def getA : Operation Plain where
  method := .get
  path := "/a".toList
  summary := []
  operation_id := []
  description := []
  update_doc := []
  build_responses := fun registry => some ([], registry)
  middlewares := []

/-- A reader finishes before the operation is registered, and another begins behind it. -/
def oneByOne : List (Act Plain) :=
  [.call 0 .bytes, .step 0, .step 0, .step 0, .call 1 (.register getA), .step 1, .call 0 .bytes,
    .step 0, .step 0,
    .step 0]

theorem coherent_of_inTime_getA : (system bare).Throughout (State.Fresh bare) .start oneByOne := by
  refine (coherent_of_inTime bare ?_).1
  have hnext : ∀ {s t : State Plain} {a : Act Plain} {as : List (Act Plain)},
      (system bare).step s a = some t → s.InTime a → (system bare).Meets State.InTime t as →
      (system bare).Meets State.InTime s (a :: as) := by
    intro s t a as hstep htime hrest
    refine ⟨htime, fun u hu => ?_⟩
    rw [← Option.some.inj (hstep.symm.trans hu)]
    exact hrest
  have hearly : ∀ {s : State Plain} {i : Nat},
      (match s.threads
        i with | .rendering _ seen => seen == s.cache.operations.length | _ => true) = true →
      s.InTime (.step i) := by
    intro s i h doc seen hthread
    rw [hthread] at h
    exact eq_of_beq h
  refine hnext rfl trivial
    (hnext rfl (hearly rfl) (hnext rfl (hearly rfl) (hnext rfl (hearly rfl) ?_)))
  refine hnext rfl trivial (hnext rfl (hearly rfl) (hnext rfl trivial ?_))
  exact hnext rfl (hearly rfl) (hnext rfl (hearly rfl) (hnext rfl (hearly rfl) trivial))

/-- The operation is registered while a reader renders the document without it. -/
def overtaken : List (Act Plain) :=
  [.call 0 .bytes, .step 0, .step 0, .call 1 (.register getA), .step 1, .step 0]

/-- Then nothing is in flight, and the bytes that are served from now on are of a document without a
path. -/
theorem stale_bytes :
    ∃ t, (system bare).exec .start overtaken = some t ∧ t.Quiet ∧ t.cache.operations = [getA] ∧
      t.cache.cached_spec = none ∧ t.cache.cached_spec_bytes = some [0] ∧
      (t.cache.openapiBytes bare).map Prod.fst = some [0] ∧
      (bare.generate [getA]).bind bare.to_json = some [1] ∧ ¬t.cache.Coherent bare := by
  refine ⟨_, rfl, ?_, rfl, rfl, rfl, rfl, rfl, fun h => ?_⟩
  · intro i
    by_cases h0 : i = 0
    · subst h0
      rfl
    · by_cases h1 : i = 1
      · subst h1
        rfl
      · simp [State.moved, State.start, Function.update_of_ne h0, Function.update_of_ne h1]
  · have hbytes : some [1] = some [(0 : UInt8)] := h.bytes [0] rfl
    cases hbytes

end LocalPost.Openapi.Document
