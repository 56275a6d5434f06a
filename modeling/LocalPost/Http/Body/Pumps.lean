import LocalPost.Http.Asgi.Pump
import LocalPost.Http.Body.Bridge
import Mathlib.Logic.Relation

/-!
# The pumps of ASGI and RSGI

`_pump_channel` takes the events of an ASGI server, `_pump_body` the chunks of an RSGI `proto`.
Neither sends an empty chunk, so `b""` at the other end can only be the end: `pumps_bridge`. The
pump that `receive` was read with alone (`pumpChannel`) is this one, run up to the step that
concerns the stream: `sendingEnd_steps`.
-/

set_option autoImplicit false

namespace LocalPost.Http

/-! ## ASGI -/

namespace Asgi

/-- Where `_pump_channel` is, with the events to come: in the loop that passes the body on, behind
it but still inside `async with body_send`, in the loop that waits for a disconnect, at its end. -/
inductive Channel where
  | body (events : List Event)
  | bodyDone (events : List Event)
  | late (events : List Event)
  | returned
  deriving DecidableEq, Repr

/-- `if not more_body`. -/
def Channel.afterRequest (moreBody : Bool) (events : List Event) : Channel :=
  if moreBody then .body events else .bodyDone events

/-- `_pump_channel`. It leaves `async with body_send` on the way out, whether it returns or
`receive` raises. -/
def pumpChannelStep : Source Channel
  | .body [] => .stays
  -- The body is not complete, and the stream is closed all the same.
  | .body (.disconnect :: _) => .closes .returned
  | .body (.raises :: _) => .closes .returned
  | .body (.other :: events) => .goes (.body events)
  | .body (.request body moreBody :: events) =>
    if body ≠ [] then .sends body (.afterRequest moreBody events)
    else .goes (.afterRequest moreBody events)
  | .bodyDone events => .closes (.late events)
  | .late [] => .stays
  | .late (.disconnect :: _) => .goes .returned
  | .late (.raises :: _) => .goes .returned
  | .late (_ :: events) => .goes (.late events)
  | .returned => .stays

namespace Channel

/-- The stream is closed. -/
def done : Channel → Bool
  | body _ | bodyDone _ => false
  | late _ | returned => true

/-- The body that is still to be sent. -/
def out : Channel → Bytes
  | body events => (handsOutEvents events).1
  | _ => []

/-- The stream will be closed. -/
def ends : Channel → Bool
  | body events => (handsOutEvents events).2 = .empty
  | _ => true

def rank : Channel → Nat
  | body events => events.length + 3
  | bodyDone events => events.length + 2
  | late events => events.length + 1
  | returned => 0

theorem afterRequest_spec (body : Bytes) (moreBody : Bool) (events : List Event) :
    rank (afterRequest moreBody events) < rank (.body (.request body moreBody :: events)) ∧
      done (afterRequest moreBody events) = false ∧
      out (.body (.request body moreBody :: events)) = body ++ out (afterRequest moreBody events) ∧
      ends (afterRequest moreBody events) = ends (.body (.request body moreBody :: events)) := by
  cases moreBody with
  | true => exact ⟨Nat.lt_succ_self _, rfl, rfl, rfl⟩
  | false => exact ⟨Nat.lt_add_right 1 (Nat.lt_succ_self _), rfl, (List.append_nil body).symm, rfl⟩

end Channel

open Channel in
/-- `_pump_channel` sends what the events carry, up to what ends the body. -/
theorem pumpChannelStep_feeds : Feeds pumpChannelStep done out ends rank := by
  constructor
  case place =>
    -- one case for each kind of event at each place of the pump
    intro k
    cases k with
    | body events =>
      cases events with
      | nil => exact fun _ => rfl
      | cons event events =>
        cases event with
        | request body moreBody =>
          obtain ⟨hrank, hdone, hout, hends⟩ := afterRequest_spec body moreBody events
          rw [pumpChannelStep]
          by_cases hbody : body = []
          · -- an empty event is passed over, whether it is the last one or not
            rw [if_neg (not_not.2 hbody)]
            rw [hbody, List.nil_append] at hout
            rw [hbody] at hrank hends ⊢
            exact ⟨hrank, hdone, hout.symm, hends⟩
          · rw [if_pos hbody]
            exact ⟨hrank, rfl, hdone, hbody, hout, hends⟩
        | disconnect => exact ⟨Nat.succ_pos _, rfl, rfl, rfl, rfl⟩
        | other => exact ⟨Nat.lt_succ_self _, rfl, rfl, rfl⟩
        | raises => exact ⟨Nat.succ_pos _, rfl, rfl, rfl, rfl⟩
    | bodyDone events => exact ⟨Nat.lt_succ_self _, rfl, rfl, rfl, rfl⟩
    | late events =>
      cases events with
      | nil => exact fun hdone => Bool.noConfusion hdone
      | cons event events =>
        cases event with
        | request body moreBody => exact ⟨Nat.lt_succ_self _, rfl, rfl, rfl⟩
        | disconnect => exact ⟨Nat.succ_pos _, rfl, rfl, rfl⟩
        | other => exact ⟨Nat.lt_succ_self _, rfl, rfl, rfl⟩
        | raises => exact ⟨Nat.succ_pos _, rfl, rfl, rfl⟩
    | returned => exact fun hdone => Bool.noConfusion hdone
  -- a pump that is done has nothing to hand out
  case done =>
    intro k h
    cases k with
    | body events => cases h
    | bodyDone events => cases h
    | late events => exact ⟨rfl, rfl⟩
    | returned => exact ⟨rfl, rfl⟩

/-! ### The pump as `receive` finds it -/

/-- The sending end: the loop with the events to come, or closed as soon as the loop has been
left. -/
def Channel.sendingEnd : Channel → Pump
  | .body events => .running events
  | .bodyDone _ | .late _ | .returned => .closed

/-- A step that does not touch the stream. -/
def Channel.Goes (k k' : Channel) : Prop := pumpChannelStep k = .goes k'

/-- What a place does is what the stream gives next to a receiver. -/
def Channel.Gives (k : Channel) : Item → Prop
  | .chunk bytes rest => ∃ k', pumpChannelStep k = .sends bytes k' ∧ k'.sendingEnd = rest
  | .endOfStream => ∃ k', pumpChannelStep k = .closes k'
  | .waits => pumpChannelStep k = .stays

/-- The steps of the pump task lead to the channel that the pump leaves. -/
theorem pumpChannel_steps (events : List Event) :
    ∃ k, Relation.ReflTransGen Channel.Goes (.body events) k ∧ k.Gives (pumpChannel events) := by
  fun_induction pumpChannel events with
  | case1 => exact ⟨.body [], .refl, rfl⟩
  | case2 events => exact ⟨_, .refl, .returned, rfl⟩
  | case3 events => exact ⟨_, .refl, .returned, rfl⟩
  | case4 events ih =>
    obtain ⟨k, hgoes, hgives⟩ := ih
    have hstep : Channel.Goes (.body (.other :: events)) (.body events) := rfl
    exact ⟨k, .head hstep hgoes, hgives⟩
  | case5 body moreBody events hbody =>
    refine ⟨_, .refl, Channel.afterRequest moreBody events, if_pos hbody, ?_⟩
    cases moreBody with
    | true => rfl
    | false => rfl
  | case6 body events hbody ih =>
    obtain ⟨k, hgoes, hgives⟩ := ih
    have hstep : Channel.Goes (.body (.request body true :: events)) (.body events) := if_neg hbody
    exact ⟨k, .head hstep hgoes, hgives⟩
  | case7 body moreBody events hbody hlast =>
    -- the last event is empty: the loop is left before the stream is closed
    cases moreBody with
    | true => exact absurd rfl hlast
    | false =>
      have hstep : Channel.Goes (.body (.request body false :: events)) (.bodyDone events) :=
        if_neg hbody
      exact ⟨.bodyDone events, .single hstep, .late events, rfl⟩

/-- As long as the stream is open, the steps of the pump come without touching it to the one that
gives a receiver what `receive` takes from the sending end. -/
theorem sendingEnd_steps {k : Channel} (hdone : k.done = false) :
    ∃ k', Relation.ReflTransGen Channel.Goes k k' ∧ k'.Gives k.sendingEnd.next := by
  cases k with
  | body events => exact pumpChannel_steps events
  | bodyDone events => exact ⟨.bodyDone events, .refl, .late events, rfl⟩
  | late events => cases hdone
  | returned => cases hdone

/-- The body of a request that comes in these events, each with its `more_body`. -/
def requestBody : List (Bytes × Bool) → Bytes
  | [] => []
  | (body, moreBody) :: requests => if moreBody then body ++ requestBody requests else body

/-- One of the events is the last of the body. -/
def complete (requests : List (Bytes × Bool)) : Bool := requests.any fun r => !r.2

/-- The events `http.request`. -/
def requestEvents (requests : List (Bytes × Bool)) : List Event :=
  requests.map fun r => .request r.1 r.2

/-- The messages of a request hand out its body, and end with it if it is complete. -/
theorem handsOut_requests (requests : List (Bytes × Bool)) :
    handsOutEvents (requestEvents requests) =
      (requestBody requests, if complete requests then .empty else .waits) := by
  induction requests with
  | nil => rfl
  | cons r requests ih =>
    obtain ⟨body, moreBody⟩ := r
    rw [requestEvents, List.map_cons, handsOutEvents, ← requestEvents, ih]
    cases moreBody with
    | true => rfl
    | false => rfl

end Asgi

/-! ## RSGI -/

namespace Rsgi

/-- What `async for chunk in proto` gives: a chunk, or it raises. At the end of the list the
iteration ends. -/
inductive Item where
  | chunk (body : Bytes)
  | raises
  deriving DecidableEq, Repr

/-- Where `_pump_body` is: in the loop, or at its end. -/
inductive Body where
  | loop (items : List Item)
  | returned
  deriving DecidableEq, Repr

/-- `_pump_body`. -/
def pumpBodyStep : Source Body
  | .loop [] => .closes .returned
  | .loop (.raises :: _) => .closes .returned
  | .loop (.chunk body :: items) =>
    if body ≠ [] then .sends body (.loop items) else .goes (.loop items)
  | .returned => .stays

/-- The bytes of the chunks before whatever ends the iteration. -/
def itemsBody : List Item → Bytes
  | [] => []
  | .raises :: _ => []
  | .chunk body :: items => body ++ itemsBody items

namespace Body

/-- The stream is closed. -/
def done : Body → Bool
  | loop _ => false
  | returned => true

/-- The body that is still to be sent. -/
def out : Body → Bytes
  | loop items => itemsBody items
  | returned => []

def rank : Body → Nat
  | loop items => items.length + 1
  | returned => 0

end Body

open Body in
/-- `_pump_body` sends what the chunks carry. -/
theorem pumpBodyStep_feeds : Feeds pumpBodyStep done out (fun _ => true) rank := by
  constructor
  case place =>
    intro k
    cases k with
    | loop items =>
      cases items with
      | nil => exact ⟨Nat.succ_pos _, rfl, rfl, rfl, rfl⟩
      | cons item items =>
        cases item with
        | raises => exact ⟨Nat.succ_pos _, rfl, rfl, rfl, rfl⟩
        | chunk body =>
          rw [pumpBodyStep]
          by_cases hbody : body = []
          · rw [if_neg (not_not.2 hbody), hbody]
            exact ⟨Nat.lt_succ_self _, rfl, rfl, rfl⟩
          · rw [if_pos hbody]
            exact ⟨Nat.lt_succ_self _, rfl, rfl, hbody, rfl, rfl⟩
    | returned => exact fun hdone => Bool.noConfusion hdone
  case done =>
    intro k h
    cases k with
    | loop items => cases h
    | returned => exact ⟨rfl, rfl⟩

theorem itemsBody_chunks (chunks : List Bytes) :
    itemsBody (chunks.map .chunk) = chunks.flatten := by
  induction chunks with
  | nil => rfl
  | cons chunk chunks ih => rw [List.map_cons, itemsBody, ih, List.flatten_cons]

end Rsgi

/-- On both, whatever the sizes of the chunks and of the calls and in whatever order the tasks run,
the calls get the body and then `b""`. -/
theorem pumps_bridge {sizes : List Nat} (hsizes : ∀ size ∈ sizes, 0 < size) :
    (∀ requests : List (Bytes × Bool),
      Bridges Asgi.pumpChannelStep (.body (Asgi.requestEvents requests)) (Asgi.requestBody requests)
        (Asgi.complete requests) sizes) ∧
    ∀ chunks : List Bytes,
      Bridges Rsgi.pumpBodyStep (.loop (chunks.map .chunk)) chunks.flatten true sizes := by
  constructor
  -- the body of the events is the one of the requests up to the last
  · intro requests
    have hbridges := Asgi.pumpChannelStep_feeds.bridges
      (k := .body (Asgi.requestEvents requests)) rfl hsizes
    have hout : Asgi.Channel.out (.body (Asgi.requestEvents requests)) =
      Asgi.requestBody requests :=
      congrArg Prod.fst (Asgi.handsOut_requests requests)
    have hends : Asgi.Channel.ends (.body (Asgi.requestEvents requests)) =
        Asgi.complete requests := by
      rw [Asgi.Channel.ends, Asgi.handsOut_requests]
      cases Asgi.complete requests with
      | true => rfl
      | false => rfl
    rwa [hout, hends] at hbridges
  · intro chunks
    have hbridges := Rsgi.pumpBodyStep_feeds.bridges (k := .loop (chunks.map .chunk)) rfl hsizes
    have hout : Rsgi.Body.out (.loop (chunks.map .chunk)) = chunks.flatten :=
      Rsgi.itemsBody_chunks chunks
    rwa [hout] at hbridges

/-- Calls for two bytes each, on a body that comes with an empty event in between. -/
theorem pumps_bridge_twoBytes :
    Bridges Asgi.pumpChannelStep
        (.body [.request [1, 2, 3] true, .request [] true, .request [4] false]) [1, 2, 3, 4] true
        [2, 2, 2, 2, 2] ∧
      Bridges Rsgi.pumpBodyStep (.loop [.chunk [1, 2, 3], .chunk [], .chunk [4]]) [1, 2, 3, 4] true
        [2, 2, 2, 2, 2] := by
  have hsizes : ∀ size ∈ [2, 2, 2, 2, 2], 0 < size := by decide
  exact ⟨(pumps_bridge hsizes).1 [([1, 2, 3], true), ([], true), ([4], false)],
    (pumps_bridge hsizes).2 [[1, 2, 3], [], [4]]⟩

end LocalPost.Http
