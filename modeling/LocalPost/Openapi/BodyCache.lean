import LocalPost.Core.Lts
import LocalPost.Http.Types

/-!
# The body that `FromBody` decodes

A `FromBody` resolver decodes `ctx.attrs[BODY_CACHE_KEY]`, and `b""` when it is not there. Only
`_run_core` stores it, when a parameter of the operation itself is `FromBody`, and only after all
middlewares have resolved their own parameters. What is stored is what is left of the body then.

So a middleware with a `FromBody` parameter decodes `b""` on the way in
(`middleware_decodes_nothing`), and after a middleware that has received a part of the body the
operation decodes the rest. `decodes_whole_iff` is the exact condition for runs of any chain.
`AsyncOperation` takes the same steps with an `await` at `aread_body` and at `call_next`.
-/

set_option autoImplicit false

namespace LocalPost.Openapi.BodyCache

open LocalPost.Core LocalPost.Http

/-- A parameter of a handler or a middleware: one with a `FromBody` factory, or another. The other
resolvers read the head of the request only. -/
inductive Param where
  | fromBody
  | other
  deriving DecidableEq, Repr

/-- `Operation` and `AsyncOperation`: the parameters of each middleware, `op_middlewares` of the app
and of the operation, and those of the handler. -/
structure Operation where
  appMiddlewares : List (List Param)
  opMiddlewares : List (List Param)
  params : List Param

/-- `(*self.op_middlewares, *op_middlewares)`, outermost first. -/
def Operation.middlewares (op : Operation) : List (List Param) :=
  op.appMiddlewares ++ op.opMiddlewares

/-- `needs_body`. -/
def Operation.needsBody (op : Operation) : Bool := op.params.contains .fromBody

/-- A call that has not returned: of a middleware or of `_run_core` with the parameters that are
still to be resolved (when none is left its function runs), or of `_run_core` inside `read_body`
with the bytes read so far. `since` counts the bytes of the body that had been received before. -/
inductive Frame where
  | call (params : List Param)
  | buffering (since : Nat) (buf : Bytes)
  deriving DecidableEq, Repr

/-- A request under way: the bytes not yet received and the number of the others,
`ctx.attrs.get(BODY_CACHE_KEY)` with the `since` of its `read_body`, and the calls, innermost
first. -/
structure Ctx where
  unread : Bytes
  received : Nat
  cache : Option Bytes
  since : Option Nat
  frames : List Frame
  begun : Bool
  deriving DecidableEq, Repr

/-- A request with this body. -/
def Ctx.start (body : Bytes) : Ctx := ⟨body, 0, none, none, [], false⟩

/-- The next call of the chain is made, by `_run` or by the function of a middleware; the next
parameter is resolved, to a value or to an `OpResult` that is returned at once; `receive` returns
`n` bytes; the innermost call returns or raises. -/
inductive Action where
  | enter
  | resolve (value : Bool)
  | receive (n : Nat)
  | leave
  deriving DecidableEq, Repr

namespace Operation

/-- The call at this depth of the chain: of a middleware, or behind them of `_run_core`. -/
def call (op : Operation) (c : Ctx) (depth : Nat) : Frame :=
  match op.middlewares[depth]? with
  | some params => .call params
  | none => if op.needsBody ∧ c.cache = none then .buffering c.received [] else .call op.params

/-- One step of a request. A function can call the chain below it any number of times, and can
receive from the body at any time. -/
def step (op : Operation) (c : Ctx) : Action → Option Ctx
  | .enter =>
    match c.frames with
    | [] => if c.begun then none else some { c with frames := [op.call c 0], begun := true }
    | .call [] :: _ =>
      if c.frames.length ≤ op.middlewares.length then
        some { c with frames := op.call c c.frames.length :: c.frames }
      else none
    | _ => none
  | .resolve value =>
    match c.frames with
    | .call (_ :: params) :: rest =>
      some { c with frames := if value then .call params :: rest else rest }
    | _ => none
  | .receive n =>
    if n ≤ c.unread.length then
      match c.frames with
      | .call [] :: _ => some { c with unread := c.unread.drop n, received := c.received + n }
      | .buffering since buf :: rest =>
        -- `read_body` asks for more than nothing: it gets nothing at the end of the body only
        if n = 0 then
          if c.unread = [] then
            some { c with
              cache := some buf, since := some since, frames := .call op.params :: rest }
          else none
        else
          some { c with
            unread := c.unread.drop n
            received := c.received + n
            frames := .buffering since (buf ++ c.unread.take n) :: rest }
      | _ => none
    else none
  | .leave =>
    match c.frames with
    | _ :: rest => some { c with frames := rest }
    | [] => none

end Operation

/-- The requests with this body to the operation. -/
def requests (op : Operation) (body : Bytes) : Lts Ctx Action where
  init c := c = .start body
  step := op.step

/-- What a `FromBody` resolver decodes in this step. -/
def Ctx.decodes (c : Ctx) : Action → Option Bytes
  | .resolve _ =>
    match c.frames with
    | .call (.fromBody :: _) :: _ => some (c.cache.getD [])
    | _ => none
  | _ => none

/-- A `FromBody` resolver that runs decodes the complete body. -/
def DecodesWhole (body : Bytes) (c : Ctx) (a : Action) : Prop :=
  ∀ b, c.decodes a = some b → b = body

/-- The condition on a step: a `FromBody` resolver runs when the operation has buffered the body and
nothing had been received before, unless the request has no body. -/
def Buffered (body : Bytes) (c : Ctx) (a : Action) : Prop :=
  c.decodes a ≠ none → body = [] ∨ c.since = some 0

/-! ## What a request keeps -/

/-- What `read_body` has collected so far and what is left make up what there was when it began. -/
def Frame.Ok (body unread : Bytes) : Frame → Prop
  | .call _ => True
  | .buffering since buf => buf ++ unread = body.drop since

/-- Only the innermost call can be inside `read_body`; what is cached is what was left of the body
when its `read_body` began. -/
structure Ctx.Ok (body : Bytes) (c : Ctx) : Prop where
  unread : c.unread = body.drop c.received
  cache : c.cache = c.since.map body.drop
  top : ∀ f ∈ c.frames.head?, f.Ok body c.unread
  below : ∀ f ∈ c.frames.tail, ∃ params, f = .call params

variable {op : Operation} {body : Bytes} {c c' : Ctx}

theorem Ctx.Ok.start : (Ctx.start body).Ok body := by
  refine ⟨rfl, rfl, ?_, ?_⟩
  · intro f hf
    cases hf
  · intro f hf
    cases hf

/-- Calls that are not inside `read_body` can be below any call. -/
theorem Ctx.Ok.push (hi : c.Ok body) {params : List Param} {rest : List Frame}
    (hframes : c.frames = .call params :: rest) : ∀ f ∈ c.frames, ∃ ps, f = .call ps := by
  intro f hf
  rw [hframes] at hf
  rcases List.mem_cons.1 hf with rfl | hf
  · exact ⟨params, rfl⟩
  · exact hi.below f (by rw [hframes]; exact hf)

/-- The calls that are left when the innermost one is over. -/
theorem Ctx.Ok.pop (hi : c.Ok body) {f : Frame} {rest : List Frame}
    (hframes : c.frames = f :: rest) : ({ c with frames := rest } : Ctx).Ok body := by
  have hcalls : ∀ g ∈ rest, ∃ params, g = .call params := by
    intro g hg
    exact hi.below g (by rw [hframes]; exact hg)
  refine ⟨hi.unread, hi.cache, fun g hg => ?_, fun g hg => hcalls g (List.mem_of_mem_tail hg)⟩
  obtain ⟨params, rfl⟩ := hcalls g (List.mem_of_mem_head? hg)
  trivial

/-- A new call begins with nothing collected. -/
theorem Ctx.Ok.call (hi : c.Ok body) (depth : Nat) : (op.call c depth).Ok body c.unread := by
  unfold Operation.call
  cases op.middlewares[depth]? with
  | some params => trivial
  | none =>
    dsimp only
    split
    · exact hi.unread
    · trivial

/-- A call that is entered keeps the cache in line with the body. -/
theorem Ctx.Ok.enter (hi : c.Ok body) (h : op.step c .enter = some c') : c'.Ok body := by
  simp only [Operation.step] at h
  split at h
  · split at h
    · cases h
    · cases h
      refine ⟨hi.unread, hi.cache, ?_, ?_⟩
      · intro f hf
        cases hf
        exact hi.call 0
      · intro f hf
        cases hf
  · rename_i rest hframes
    split at h
    · cases h
      refine ⟨hi.unread, hi.cache, ?_, hi.push hframes⟩
      intro f hf
      cases hf
      exact hi.call _
    · cases h
  · cases h

/-- A parameter that is resolved keeps the cache in line with the body. -/
theorem Ctx.Ok.resolve (hi : c.Ok body) {value : Bool} (h : op.step c (.resolve value) = some c') :
    c'.Ok body := by
  simp only [Operation.step] at h
  split at h
  · rename_i p params rest hframes
    cases h
    cases value with
    | false => exact hi.pop hframes
    | true =>
      refine ⟨hi.unread, hi.cache, ?_, ?_⟩
      · intro f hf
        cases hf
        trivial
      · intro f hf
        apply hi.below f
        rw [hframes]
        exact hf
  · cases h

/-- A piece that `read_body` receives goes from what is left to what is collected; a function that
receives is not inside `read_body`. -/
theorem Ctx.Ok.receive (hi : c.Ok body) {n : Nat} (h : op.step c (.receive n) = some c') :
    c'.Ok body := by
  simp only [Operation.step] at h
  have hdrop : c.unread.drop n = body.drop (c.received + n) := by rw [hi.unread, List.drop_drop]
  split at h
  · split at h
    · rename_i rest hframes
      cases h
      refine ⟨hdrop, hi.cache, ?_, hi.below⟩
      intro f hf
      rw [hframes] at hf
      cases hf
      trivial
    · rename_i since buf rest hframes
      have hbelow : ∀ f ∈ rest, ∃ params, f = .call params := by
        intro f hf
        exact hi.below f (by rw [hframes]; exact hf)
      have hbuf : buf ++ c.unread = body.drop since := by
        apply hi.top (.buffering since buf)
        rw [hframes]
        rfl
      split at h
      · split at h
        · rename_i hend
          cases h
          -- the end of the body: the cache is what there was when `read_body` began
          rw [hend, List.append_nil] at hbuf
          refine ⟨hi.unread, congrArg some hbuf, ?_, hbelow⟩
          intro f hf
          cases hf
          trivial
        · cases h
      · cases h
        refine ⟨hdrop, hi.cache, ?_, hbelow⟩
        intro f hf
        cases hf
        show buf ++ c.unread.take n ++ c.unread.drop n = body.drop since
        rw [List.append_assoc, List.take_append_drop, hbuf]
    · cases h
  · cases h

/-- What one step preserves. -/
theorem Ctx.Ok.step (hi : c.Ok body) {a : Action} (h : op.step c a = some c') : c'.Ok body := by
  cases a with
  | enter => exact hi.enter h
  | resolve value => exact hi.resolve h
  | receive n => exact hi.receive h
  | leave =>
    simp only [Operation.step] at h
    split at h
    · rename_i f rest hframes
      cases h
      exact hi.pop hframes
    · cases h

/-! ## What is decoded -/

/-- Nothing is dropped from a list that is empty, or by none. -/
theorem drop_eq_self_iff {α : Type} {l : List α} {n : Nat} : l.drop n = l ↔ l = [] ∨ n = 0 := by
  constructor
  · intro h
    have hlen : l.length - n = l.length := by rw [← List.length_drop, h]
    cases l with
    | nil => exact .inl rfl
    | cons x l =>
      rw [List.length_cons] at hlen
      exact .inr (by omega)
  · rintro (rfl | rfl)
    · exact List.drop_nil
    · rfl

/-- A resolver decodes the complete body exactly when the body is empty or what is cached was read
from its beginning. -/
theorem Ctx.Ok.cache_eq_iff (hi : c.Ok body) : c.cache.getD [] = body ↔ body = [] ∨
    c.since = some 0 := by
  rw [hi.cache]
  cases c.since with
  | none =>
    constructor
    · intro h
      exact .inl h.symm
    · rintro (rfl | h)
      · rfl
      · cases h
  | some n =>
    rw [Option.map_some, Option.getD_some, drop_eq_self_iff, Option.some.injEq]

/-- A step decodes the whole body exactly if the body is buffered when it is read. -/
theorem Ctx.Ok.decodesWhole_iff (hi : c.Ok body) (a : Action) :
    DecodesWhole body c a ↔ Buffered body c a := by
  have hcached : ∀ b, c.decodes a = some b → b = c.cache.getD [] := by
    intro b hb
    cases a with
    | resolve value =>
      simp only [Ctx.decodes] at hb
      split at hb
      · exact (Option.some.inj hb).symm
      · cases hb
    | enter => cases hb
    | receive n => cases hb
    | leave => cases hb
  constructor
  · intro h hne
    obtain ⟨b, hb⟩ := Option.ne_none_iff_exists'.1 hne
    exact hi.cache_eq_iff.1 ((hcached b hb).symm.trans (h b hb))
  · intro h b hb
    rw [hcached b hb]
    exact hi.cache_eq_iff.2 (h (by rw [hb]; exact Option.some_ne_none b))

/-- In every run of a request through any chain: all `FromBody` resolvers decode the complete body
exactly when each of them runs after the operation has begun to buffer a body of which nothing had
been received, or the body is empty. -/
theorem decodes_whole_iff (op : Operation) (body : Bytes) (as : List Action) :
    (requests op body).Meets (DecodesWhole body) (.start body) as ↔
      (requests op body).Meets (Buffered body) (.start body) as :=
  Lts.meets_congr (I := Ctx.Ok body) (fun _ _ _ hi h => hi.step h)
    (fun _ a hi => hi.decodesWhole_iff a) .start

/-- One middleware takes the body, the operation has no parameters. -/
def audited : Operation := ⟨[[.fromBody]], [], []⟩

/-- The middleware decodes `b""` although a byte was sent. -/
theorem middleware_decodes_nothing :
    ∃ c, (requests audited [1]).Reachable c ∧ c.decodes (.resolve true) = some [] ∧
      ¬(requests audited [1]).Meets (DecodesWhole [1]) (.start [1]) [.enter, .resolve true] := by
  have hreach := Lts.Reachable.of_isSome (M := requests audited [1]) (s := .start [1]) rfl [.enter]
    (by decide)
  refine ⟨_, hreach, rfl, fun h => ?_⟩
  have hwhole := (h.2 _ rfl).1 [] rfl
  cases hwhole

/-! ## Chains that leave the body to the operation -/

/-- No function receives from the body before it is cached, and no `read_body` is broken off. -/
def LeavesBody (c : Ctx) : Action → Prop
  | .receive n => n = 0 ∨ c.cache ≠ none ∨ ∃ since buf, Frame.buffering since buf ∈ c.frames.head?
  | .leave => ∀ f ∈ c.frames.head?, ∃ params, f = .call params
  | _ => True

/-- A call whose `FromBody` parameters come after the buffering, or a `read_body` from the
beginning. -/
def Frame.Quiet (since : Option Nat) : Frame → Prop
  | .call params => .fromBody ∈ params → since = some 0
  | .buffering since' _ => since' = 0

/-- Nothing has been received unless the body is cached from its beginning or is being read so. -/
structure Ctx.Quiet (c : Ctx) : Prop where
  frames : ∀ f ∈ c.frames, f.Quiet c.since
  cached : c.cache ≠ none → c.since = some 0
  received : c.cache = none → (∀ f ∈ c.frames, ∃ params, f = .call params) → c.received = 0

/-- A call whose middlewares take no body starts quiet. -/
theorem Frame.Quiet.call (hmws : ∀ params ∈ op.middlewares, .fromBody ∉ params) (hi : c.Quiet)
    (hcalls : ∀ f ∈ c.frames, ∃ params, f = .call params) (depth : Nat) :
    (op.call c depth).Quiet c.since := by
  unfold Operation.call
  cases hget : op.middlewares[depth]? with
  | some params =>
    intro hmem
    exact absurd hmem (hmws params (List.mem_of_getElem? hget))
  | none =>
    dsimp only
    split
    · rename_i hread
      exact hi.received hread.2 hcalls
    · rename_i hread
      intro hmem
      refine hi.cached fun hnone => hread ⟨?_, hnone⟩
      exact List.contains_iff_mem.2 hmem

theorem Ctx.Quiet.pushed (hmws : ∀ params ∈ op.middlewares, .fromBody ∉ params) (hi : c.Quiet)
    (hcalls : ∀ f ∈ c.frames, ∃ params, f = .call params) (depth : Nat) (begun : Bool) :
    ({ c with frames := op.call c depth :: c.frames, begun := begun } : Ctx).Quiet := by
  refine ⟨?_, hi.cached, fun hnone _ => hi.received hnone hcalls⟩
  intro f hf
  rcases List.mem_cons.1 hf with rfl | hf
  · exact Frame.Quiet.call hmws hi hcalls depth
  · exact hi.frames f hf

/-- Entering a call leaves the request quiet. -/
theorem Ctx.Quiet.enter (hmws : ∀ params ∈ op.middlewares, .fromBody ∉ params) (hok : c.Ok body)
    (hi : c.Quiet) (h : op.step c .enter = some c') : c'.Quiet := by
  simp only [Operation.step] at h
  split at h
  · rename_i hframes
    split at h
    · cases h
    · cases h
      have hcalls : ∀ f ∈ c.frames, ∃ params, f = .call params := by
        intro f hf
        rw [hframes] at hf
        cases hf
      have hpushed := hi.pushed hmws hcalls 0 true
      rwa [hframes] at hpushed
  · rename_i rest hframes
    split at h
    · cases h
      exact hi.pushed hmws (hok.push hframes) _ c.begun
    · cases h
  · cases h

/-- Resolving a parameter leaves the request quiet. -/
theorem Ctx.Quiet.resolve (hok : c.Ok body) (hi : c.Quiet) {value : Bool}
    (h : op.step c (.resolve value) = some c') : c'.Quiet := by
  simp only [Operation.step] at h
  split at h
  · rename_i p params rest hframes
    have hall : ∀ f ∈ rest, f.Quiet c.since := by
      intro f hf
      exact hi.frames f (by rw [hframes]; exact List.mem_cons_of_mem _ hf)
    have hreceived : c.cache = none → c.received = 0 :=
      fun hnone => hi.received hnone (hok.push hframes)
    cases h
    cases value with
    | false => exact ⟨hall, hi.cached, fun hnone _ => hreceived hnone⟩
    | true =>
      refine ⟨?_, hi.cached, fun hnone _ => hreceived hnone⟩
      intro f hf
      rcases List.mem_cons.1 hf with rfl | hf
      · intro hmem
        have hcall := hi.frames (.call (p :: params)) (by rw [hframes]; exact List.mem_cons_self)
        exact hcall (List.mem_cons_of_mem p hmem)
      · exact hall f hf
  · cases h

/-- A function receives nothing before the body is cached, so what is received goes to a `read_body`
that has begun with nothing received. -/
theorem Ctx.Quiet.receive (hok : c.Ok body) (hi : c.Quiet) {n : Nat}
    (hleaves : LeavesBody c (.receive n)) (h : op.step c (.receive n) = some c') : c'.Quiet := by
  simp only [Operation.step] at h
  split at h
  · split at h
    · rename_i rest hframes
      cases h
      refine ⟨hi.frames, hi.cached, ?_⟩
      intro hnone hcalls
      -- the call is of no body, of a cached one, or a part of the buffering
      rcases hleaves with rfl | hcached | ⟨since, buf, hhead⟩
      · exact hi.received hnone hcalls
      · exact absurd hnone hcached
      · rw [hframes] at hhead
        cases hhead
    -- the read that fills the cache, with nothing read before it
    · rename_i since buf rest hframes
      have hsince : since = 0 :=
        hi.frames (.buffering since buf) (by rw [hframes]; exact List.mem_cons_self)
      subst hsince
      have hall : ∀ f ∈ rest, f.Quiet c.since := by
        intro f hf
        exact hi.frames f (by rw [hframes]; exact List.mem_cons_of_mem _ hf)
      split at h
      · split at h
        · cases h
          refine ⟨?_, fun _ => rfl, fun hnone => by cases hnone⟩
          intro f hf
          rcases List.mem_cons.1 hf with rfl | hf
          · exact fun _ => rfl
          · -- the calls outside have no buffering, and need no more than the cache
            obtain ⟨params, rfl⟩ := hok.below f (by rw [hframes]; exact hf)
            exact fun _ => rfl
        · cases h
      · cases h
        -- a chunk that is not the last one belongs to the buffer
        refine ⟨?_, hi.cached, ?_⟩
        · intro f hf
          rcases List.mem_cons.1 hf with rfl | hf
          · rfl
          · exact hall f hf
        · intro _ hcalls
          obtain ⟨params, hparams⟩ := hcalls _ List.mem_cons_self
          cases hparams
    · cases h
  · cases h

/-- A call that leaves the body alone stays quiet. -/
theorem Ctx.Quiet.leave (hok : c.Ok body) (hi : c.Quiet) (hleaves : LeavesBody c .leave)
    (h : op.step c .leave = some c') : c'.Quiet := by
  simp only [Operation.step] at h
  split at h
  · rename_i f rest hframes
    have hcall : ∃ params, f = .call params := by
      apply hleaves f
      rw [hframes]
      rfl
    obtain ⟨params, rfl⟩ := hcall
    cases h
    refine ⟨?_, hi.cached, fun hnone _ => hi.received hnone (hok.push hframes)⟩
    intro g hg
    exact hi.frames g (by rw [hframes]; exact List.mem_cons_of_mem _ hg)
  · cases h

/-- What a step keeps that leaves the body to the operation. -/
theorem Ctx.Quiet.step (hmws : ∀ params ∈ op.middlewares, .fromBody ∉ params) (hok : c.Ok body)
    (hi : c.Quiet) {a : Action} (hleaves : LeavesBody c a) (h : op.step c a = some c') :
    c'.Quiet := by
  cases a with
  | enter => exact hi.enter hmws hok h
  | resolve value => exact hi.resolve hok h
  | receive n => exact hi.receive hok hleaves h
  | leave => exact hi.leave hok hleaves h

/-- When no middleware has a `FromBody` parameter and the functions leave the body to the operation,
every resolver decodes the complete body. -/
theorem decodes_whole_of_leaves (hmws : ∀ params ∈ op.middlewares, .fromBody ∉ params)
    {as : List Action} (hleaves : (requests op body).Meets LeavesBody (.start body) as) :
    (requests op body).Meets (DecodesWhole body) (.start body) as := by
  have hstart : (Ctx.start body).Quiet := by
    refine ⟨fun f hf => ?_, fun h => absurd rfl h, fun _ _ => rfl⟩
    cases hf
  have hquiet : (requests op body).Throughout Ctx.Quiet (.start body) as :=
    Lts.throughout_of_meets (I := Ctx.Ok body) (fun _ _ _ hi h => hi.step h)
      (fun _ _ _ hok hi hl h => hi.step hmws hok hl h) .start hstart hleaves
  refine (decodes_whole_iff op body as).2 (Lts.meets_of_throughout hquiet fun c a hi hne => .inr ?_)
  obtain ⟨b, hb⟩ := Option.ne_none_iff_exists'.1 hne
  cases a with
  | resolve value =>
    simp only [Ctx.decodes] at hb
    split at hb
    · rename_i params rest hframes
      have hcall :=
        hi.frames (.call (.fromBody :: params)) (by rw [hframes]; exact List.mem_cons_self)
      exact hcall List.mem_cons_self
    · cases hb
  | enter => cases hb
  | receive n => cases hb
  | leave => cases hb

end LocalPost.Openapi.BodyCache
