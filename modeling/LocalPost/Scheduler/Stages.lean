import Mathlib.Data.List.Induction
import Mathlib.Data.Seq.Basic

/-!
# Triggers with stages

`take_first(n)` and `delay` wrap a trigger: each is an asynchronous generator that asks the trigger
it wraps for an event when it is asked for one. The queue of a template is folded over its trigger
factory, so the first decorator is the innermost generator, and the run of a task asks the outermost
one until it ends.

`run_emits`: without a shutdown the handler gets the first events of the source, as many as the
smallest `n` of the queue allows, and the source gives no event that the handler does not get.
-/

set_option autoImplicit false

namespace LocalPost.Scheduler.Triggers

/-- What a decorator of the queue wraps a trigger into. -/
inductive Stage where
  | takeFirst (n : Nat)
  | delay
  deriving DecidableEq, Repr

/-- `take_first(n)`; `none` is its `ValueError`. -/
def takeFirst (n : Int) : Option Stage := if n < 0 then none else some (.takeFirst n.toNat)

/-- Where a generator is: not started, at its `yield` (`take_first` with its `iter_n`), finished. -/
inductive Place where
  | notStarted
  | atYield (iterN : Nat)
  | finished
  deriving DecidableEq, Repr

/-- A trigger: the source, or a generator around another trigger. -/
inductive Trigger where
  | source
  | stage (st : Stage) (place : Place) (inner : Trigger)
  deriving DecidableEq, Repr

/-- The context of the source. -/
inductive Phase where
  | idle
  | opened
  | closed
  deriving DecidableEq, Repr

/-- What has been done with the source: how often it was asked for an event, how many it gave. -/
structure Use where
  phase : Phase
  asked : Nat
  given : Nat
  deriving DecidableEq, Repr

namespace Trigger

/-- `__aenter__`: only the source does something, `maybe_closing` just returns its generator. -/
def enter : Trigger → Use → Use
  | .source, u => { u with phase := .opened }
  | .stage _ _ _, u => u

/-- `__aexit__`, which for a generator is `aclose()`: at its `yield` it leaves `async with source`,
before its start it does nothing. -/
def aclose : Trigger → Use → Trigger × Use
  | .source, u => (.source, { u with phase := .closed })
  | .stage st .notStarted inner, u => (.stage st .finished inner, u)
  | .stage st (.atYield _) inner, u => (.stage st .finished (inner.aclose u).1, (inner.aclose u).2)
  | .stage st .finished inner, u => (.stage st .finished inner, u)

end Trigger

namespace Stage

variable {α : Type}

/-- `if iter_n >= n`. -/
def stops : Stage → Nat → Bool
  | .takeFirst n, iterN => n ≤ iterN
  | .delay, _ => false

/-- The generator has left `async with source` and ends. -/
def leave (st : Stage) (inner : Trigger × Use) : Option α × Trigger × Use :=
  (none, .stage st .finished inner.1, inner.2)

/-- One round of `async for event in events` with what the inner trigger has answered. -/
def received (shuttingDown : Bool) (st : Stage) (iterN : Nat) :
    Option α × Trigger × Use → Option α × Trigger × Use
  | (some event, inner, u) =>
    -- `delay` looks at `task.shutting_down` after its sleep.
    if st = .delay ∧ shuttingDown then st.leave (inner.aclose u)
    else (some event, .stage st (.atYield (iterN + 1)) inner, u)
  | (none, inner, u) => st.leave (inner.aclose u)

end Stage

section

variable {α : Type} (events : Stream'.Seq α) (shuttingDown : Bool)

/-- `__anext__` of a trigger whose source gives these events; `none` is `StopAsyncIteration`. -/
def Trigger.anext : Trigger → Use → Option α × Trigger × Use
  | .source, u =>
    match events.get? u.given with
    | some event => (some event, .source, { u with asked := u.asked + 1, given := u.given + 1 })
    | none => (none, .source, { u with asked := u.asked + 1 })
  | .stage st .notStarted inner, u =>
    -- `if n == 0: return`, before the source is entered.
    if st = .takeFirst 0 then (none, .stage st .finished inner, u)
    else st.received shuttingDown 0 (inner.anext (inner.enter u))
  | .stage st (.atYield iterN) inner, u =>
    -- Resumed behind its `yield`: `take_first` looks at its count before it asks.
    if st.stops iterN then st.leave (inner.aclose u)
    else st.received shuttingDown iterN (inner.anext u)
  | .stage st .finished inner, u => (none, .stage st .finished inner, u)

/-- `_ScheduledTask.run`: the trigger, what was done with the source, the events that the handler
has got, and whether the trigger is completed. -/
structure Run (α : Type) where
  trigger : Trigger
  source : Use
  handled : List α
  completed : Bool

/-- One round of the loop over the events. -/
def Run.turn (r : Run α) : Run α :=
  if r.completed then r
  else
    match r.trigger.anext events shuttingDown r.source with
    | (some event, t, u) => ⟨t, u, r.handled ++ [event], false⟩
    | (none, t, u) => ⟨(t.aclose u).1, (t.aclose u).2, r.handled, true⟩

/-- The loop after `k` rounds. -/
def Run.turns : Nat → Run α → Run α
  | 0, r => r
  | k + 1, r => Run.turn events shuttingDown (Run.turns k r)

end

/-- `ScheduledTaskTemplate.tf` of a queue, to whose end `//` adds a decorator, called for a task. -/
def tf (queue : List Stage) : Trigger :=
  queue.foldl (fun trigger st => .stage st .notStarted trigger) .source

/-- The run of a task with this queue, at its first round. -/
def start (α : Type) (queue : List Stage) : Run α :=
  ⟨tf queue, (tf queue).enter ⟨.idle, 0, 0⟩, [], false⟩

/-- The `n` of a stage. -/
def Stage.limits : Stage → List Nat
  | .takeFirst n => [n]
  | .delay => []

/-- The `n` of all the `take_first` in a queue. -/
def limits (queue : List Stage) : List Nat := queue.flatMap Stage.limits

/-- The run after `k` rounds: the handler has got the first events, as many as `k` and all the `n`
allow, and the run is completed when this is less than `k`. The source has given these events and no
others; it was asked once more only if it has none left, and never more than `n` times. It is closed
in the end; with an `n = 0` it has not been touched. -/
structure Emits {α : Type} (events : Stream'.Seq α) (limits : List Nat) (k : Nat) (r : Run α) :
    Prop where
  handled : r.handled = events.take (limits.foldr min k)
  completed : r.completed = true ↔ r.handled.length < k
  given : r.source.given = r.handled.length
  asked : r.source.asked = r.handled.length ∨
    (r.source.asked = r.handled.length + 1 ∧ events.get? r.handled.length = none)
  within : ∀ n ∈ limits, r.source.asked ≤ n
  left : r.completed = true → r.source.phase ≠ .opened
  untouched : 0 ∈ limits → r.source.phase = .idle

/-- The context of the source after its end. -/
def Use.shut (u : Use) : Use := { u with phase := if u.phase = .idle then .idle else .closed }

/-! ## One answer of a trigger -/

namespace Trigger

variable {α : Type} {events : Stream'.Seq α}

/-- The `n` of the stages, from the inside to the outside. -/
def limits : Trigger → List Nat
  | .source => []
  | .stage st _ inner => inner.limits ++ st.limits

/-- No generator of the trigger has started. -/
def Fresh : Trigger → Prop
  | .source => True
  | .stage _ place inner => place = .notStarted ∧ inner.Fresh

/-- The trigger has been entered, has answered `m` times, each time with an event, and goes on. -/
def Running : Trigger → Nat → Use → Prop
  | .source, m, u => u = ⟨.opened, m, m⟩
  | .stage _ .notStarted inner, m, u => m = 0 ∧ inner.Fresh ∧ u = ⟨.idle, 0, 0⟩
  | .stage st (.atYield iterN) inner, m, u =>
    0 < m ∧ (∀ n, st = .takeFirst n → iterN = m ∧ m ≤ n) ∧ inner.Running m u
  | .stage _ .finished _, _, _ => False

theorem Fresh.running {t : Trigger} (h : t.Fresh) : t.Running 0 (t.enter ⟨.idle, 0, 0⟩) := by
  cases t with
  | source => exact rfl
  | stage st place inner =>
    obtain ⟨rfl, hinner⟩ := h
    exact ⟨rfl, hinner, rfl⟩

/-- A trigger that is running has asked as often as it has answered. -/
theorem Running.use {t : Trigger} {m : Nat} {u : Use} (h : t.Running m u) :
    u.asked = m ∧ u.given = m := by
  induction t with
  | source =>
    cases h
    exact ⟨rfl, rfl⟩
  | stage st place inner ih =>
    cases place with
    | notStarted =>
      obtain ⟨rfl, -, rfl⟩ := h
      exact ⟨rfl, rfl⟩
    | atYield iterN => exact ih h.2.2
    | finished => exact h.elim

/-- Leaving a trigger only closes the source, if it is open. -/
theorem Running.aclose {t : Trigger} {m : Nat} {u : Use} (h : t.Running m u) :
    (t.aclose u).2 = u.shut := by
  induction t with
  | source =>
    cases h
    rfl
  | stage st place inner ih =>
    cases place with
    | notStarted =>
      obtain ⟨rfl, -, rfl⟩ := h
      rfl
    | atYield iterN => exact ih h.2.2
    | finished => exact h.elim

/-- The answer of a trigger that has given `m` events and whose source was used as `u`: the next
event of the source; or the end, because the source has ended, or because of some `n`. In the last
case the source is not asked. -/
inductive Answers (events : Stream'.Seq α) (m : Nat) (limits : List Nat) (u : Use) :
    Option α × Trigger × Use → Prop where
  | event {e : α} {t : Trigger} {v : Use} (hlimits : ∀ n ∈ limits, m < n)
    (he : events.get? m = some e)
      (ht : t.Running (m + 1) v) (hstages : t.limits = limits) :
        Answers events m limits u (some e, t, v)
  | exhausted {t : Trigger} {v : Use} (hlimits : ∀ n ∈ limits, m < n) (hnone : events.get? m = none)
      (hclosed : (t.aclose v).2 = ⟨.closed, m + 1, m⟩) : Answers events m limits u (none, t, v)
  | limited {t : Trigger} {v : Use} (hlimits : ∃ n ∈ limits, n ≤ m)
      (hclosed : (t.aclose v).2 = u.shut) : Answers events m limits u (none, t, v)

/-- A stage passes on what the trigger inside answers, unless it has had enough. -/
theorem Answers.received {m iterN : Nat} {inner : List Nat} {u : Use} {r : Option α × Trigger × Use}
    (h : Answers events m inner u r) {st : Stage}
    (hst : ∀ n, st = .takeFirst n → iterN = m ∧ m < n) :
    Answers events m (inner ++ st.limits) u (st.received false iterN r) := by
  -- the limit of the stage itself has not been reached
  have hown : ∀ n ∈ st.limits, m < n := by
    intro n hn
    cases st with
    | takeFirst n' =>
      rw [List.mem_singleton.1 hn]
      exact (hst n' rfl).2
    | delay => cases hn
  have hall : (∀ n ∈ inner, m < n) → ∀ n ∈ inner ++ st.limits, m < n := by
    intro hinner n hn
    cases List.mem_append.1 hn with
    | inl hn => exact hinner n hn
    | inr hn => exact hown n hn
  -- an answer of the stages before is passed on
  cases h with
  | event hlimits he ht hstages =>
    rw [Stage.received, if_neg (by simp)]
    refine .event (hall hlimits) he ⟨Nat.succ_pos m, ?_, ht⟩ (congrArg (· ++ st.limits) hstages)
    intro n hn
    obtain ⟨hiter, hlt⟩ := hst n hn
    exact ⟨congrArg (· + 1) hiter, hlt⟩
  | exhausted hlimits hnone hclosed => exact .exhausted (hall hlimits) hnone hclosed
  | limited hlimits hclosed =>
    obtain ⟨n, hn, hle⟩ := hlimits
    exact .limited ⟨n, List.mem_append_left _ hn, hle⟩ hclosed

/-- A trigger that goes on answers with the next event of its source, within its limits. -/
theorem Running.anext {t : Trigger} {m : Nat} {u : Use} (h : t.Running m u) :
    Answers events m t.limits u (t.anext events false u) := by
  induction t generalizing m u with
  | source =>
    cases h
    rw [Trigger.anext]
    cases he : events.get? m with
    | none => exact .exhausted (by simp [limits]) he rfl
    | some e => exact .event (by simp [limits]) he rfl rfl
  | stage st place inner ih =>
    cases place with
    | finished => exact h.elim
    | notStarted =>
      obtain ⟨rfl, hinner, rfl⟩ := h
      rw [Trigger.anext]
      split
      · rename_i hst
        subst hst
        exact .limited ⟨0, List.mem_append_right _ List.mem_cons_self, Nat.le_refl 0⟩ rfl
      · rename_i hst
        have hn : ∀ n, st = .takeFirst n → 0 = 0 ∧ 0 < n := by
          rintro n rfl
          refine ⟨rfl, Nat.pos_of_ne_zero ?_⟩
          rintro rfl
          exact hst rfl
        have hanswer := (ih hinner.running).received hn
        -- the trigger inside has only been entered if the source is all there is inside
        cases inner with
        | source =>
          generalize hr : Stage.received false st 0 _ = r at hanswer ⊢
          cases hanswer with
          | event hlimits he ht hstages => exact .event hlimits he ht hstages
          | exhausted hlimits hnone hclosed => exact .exhausted hlimits hnone hclosed
          | limited hlimits hclosed =>
            obtain ⟨n, hmem, hle⟩ := hlimits
            cases st with
            | takeFirst n' =>
              rw [List.mem_singleton.1 hmem] at hle
              exact absurd hle (Nat.not_le.2 (hn n' rfl).2)
            | delay => cases hmem
        | stage st' place' inner' => exact hanswer
    | atYield iterN =>
      obtain ⟨hpos, hst, hinner⟩ := h
      rw [Trigger.anext]
      split
      · rename_i hstops
        cases st with
        | delay => cases hstops
        | takeFirst n =>
          obtain ⟨rfl, -⟩ := hst n rfl
          have hle : n ≤ iterN := of_decide_eq_true hstops
          exact .limited ⟨n, List.mem_append_right _ List.mem_cons_self, hle⟩ hinner.aclose
      · rename_i hgoes
        apply (ih hinner).received
        rintro n rfl
        obtain ⟨rfl, -⟩ := hst n rfl
        exact ⟨rfl, Nat.lt_of_not_le fun hle => hgoes (decide_eq_true hle)⟩

end Trigger

/-! ## The loop of a task -/

theorem tf_concat (queue : List Stage) (st : Stage) :
    tf (queue ++ [st]) = .stage st .notStarted (tf queue) := by
  rw [tf, List.foldl_append]
  rfl

theorem tf_fresh (queue : List Stage) : (tf queue).Fresh ∧ (tf queue).limits = limits queue := by
  induction queue using List.reverseRecOn with
  | nil => exact ⟨trivial, rfl⟩
  | append_singleton queue st ih =>
    rw [tf_concat, limits, List.flatMap_append, List.flatMap_singleton, ← limits, ← ih.2]
    exact ⟨⟨rfl, ih.1⟩, rfl⟩

theorem lt_foldr_min {ns : List Nat} {i k : Nat} :
    i < ns.foldr min k ↔ i < k ∧ ∀ n ∈ ns, i < n := by
  induction ns with
  | nil => simp
  | cons n ns ih =>
    rw [List.foldr_cons, lt_min_iff, ih, List.forall_mem_cons]
    exact and_left_comm

variable {α : Type} {events : Stream'.Seq α}

/-- Past the end of the events, or of what some `n` allows, there is nothing more to take. -/
theorem take_eq_take_min {ns : List Nat} {m k : Nat} (hm : m ≤ k) (hns : ∀ n ∈ ns, m ≤ n)
    (hend : m = k ∨ events.get? m = none ∨ ∃ n ∈ ns, n ≤ m) :
    events.take m = events.take (ns.foldr min k) := by
  apply List.ext_getElem?
  intro i
  rw [Stream'.Seq.getElem?_take, Stream'.Seq.getElem?_take]
  by_cases him : i < m
  · have hmin : i < ns.foldr min k :=
      lt_foldr_min.2 ⟨Nat.lt_of_lt_of_le him hm, fun n hn => Nat.lt_of_lt_of_le him (hns n hn)⟩
    rw [if_pos him, if_pos hmin]
  · rw [if_neg him]
    split
    · rename_i hmin
      obtain ⟨hik, hin⟩ := lt_foldr_min.1 hmin
      rcases hend with rfl | hnone | ⟨n, hn, hle⟩
      · exact absurd hik him
      · exact (events.le_stable (Nat.le_of_not_lt him) hnone).symm
      · exact absurd (Nat.lt_of_lt_of_le (hin n hn) hle) him
    · rfl

theorem length_take_of_get? {m : Nat} {e : α} (he : events.get? m = some e) :
    (events.take m).length = m := by
  apply Stream'.Seq.length_take_of_le_length
  intro h
  exact Nat.le_of_lt (Stream'.Seq.lt_length_iff.2 ⟨e, he⟩)

/-- The next event comes behind those before it. -/
theorem take_succ_of_get? {m : Nat} {e : α} (he : events.get? m = some e) :
    events.take (m + 1) = events.take m ++ [e] := by
  apply List.ext_getElem?
  intro i
  rw [Stream'.Seq.getElem?_take, List.getElem?_append, length_take_of_get? he,
    Stream'.Seq.getElem?_take]
  rcases Nat.lt_trichotomy i m with hlt | rfl | hgt
  · rw [if_pos (Nat.lt_succ_of_lt hlt), if_pos hlt, if_pos hlt]
  · rw [if_pos (Nat.lt_succ_self i), if_neg (Nat.lt_irrefl i), Nat.sub_self, he]
    rfl
  · have hnone : ([e] : List α)[i - m]? = none := by
      rw [List.getElem?_eq_none_iff, List.length_singleton]
      omega
    rw [if_neg (by omega), if_neg (by omega), hnone]

/-- A trigger with an `n` that has not answered yet has not touched the source. -/
theorem Trigger.Running.idle {t : Trigger} {u : Use} (h : t.Running 0 u) (ht : t.limits ≠ []) :
    u.phase = .idle := by
  cases t with
  | source => exact absurd rfl ht
  | stage st place inner =>
    cases place with
    | notStarted =>
      obtain ⟨-, -, rfl⟩ := h
      rfl
    | atYield iterN => exact absurd h.1 (Nat.lt_irrefl 0)
    | finished => exact h.elim

/-- The run after `k` rounds: it goes on, or it was completed in the round behind the first `m`. -/
inductive Round (events : Stream'.Seq α) (limits : List Nat) (k : Nat) : Run α → Prop where
  | running {t : Trigger} {u : Use} (ht : t.Running k u) (hstages : t.limits = limits)
      (hlimits : ∀ n ∈ limits, k ≤ n) (hlength : (events.take k).length = k) :
      Round events limits k ⟨t, u, events.take k, false⟩
  | exhausted {t : Trigger} {m : Nat} (hm : m < k) (hlimits : ∀ n ∈ limits, m < n)
      (hlength : (events.take m).length = m) (hnone : events.get? m = none) :
      Round events limits k ⟨t, ⟨.closed, m + 1, m⟩, events.take m, true⟩
  | limited {t : Trigger} {u : Use} {m : Nat} (hm : m < k) (hlimits : ∀ n ∈ limits, m ≤ n)
      (hlimit : ∃ n ∈ limits, n ≤ m) (hlength : (events.take m).length = m)
      (huse : u.asked = m ∧ u.given = m) (hleft : u.phase ≠ .opened)
      (hidle : 0 ∈ limits → u.phase = .idle) : Round events limits k ⟨t, u, events.take m, true⟩

/-- A turn leads to the next round. -/
theorem Round.turn {limits : List Nat} {k : Nat} {r : Run α} (h : Round events limits k r) :
    Round events limits (k + 1) (r.turn events false) := by
  -- the run goes on, has found the end of the events, or has come to a limit
  cases h with
  | running ht hstages hlimits hlength =>
    rename_i t u
    rw [Run.turn, if_neg Bool.false_ne_true]
    have hanswer : Trigger.Answers events k t.limits u (t.anext events false u) := ht.anext
    rw [hstages] at hanswer
    generalize t.anext events false u = answer at hanswer ⊢
    cases hanswer with
    | event hlt he ht' hstages' =>
      dsimp only
      rw [← take_succ_of_get? he]
      refine .running ht' hstages' hlt ?_
      rw [take_succ_of_get? he, List.length_append, hlength, List.length_singleton]
    | exhausted hlt hnone hclosed =>
      dsimp only
      rw [hclosed]
      exact .exhausted (Nat.lt_succ_self k) hlt hlength hnone
    | limited hlimit hclosed =>
      dsimp only
      rw [hclosed]
      refine .limited (Nat.lt_succ_self k) hlimits hlimit hlength ht.use ?_ ?_
      · rw [Use.shut]
        split <;> simp
      · intro hzero
        -- with a limit of zero nothing was asked for, so there is nothing to shut
        have hk : k = 0 := Nat.le_zero.1 (hlimits 0 hzero)
        subst hk
        have hne : t.limits ≠ [] := by
          rw [hstages]
          exact List.ne_nil_of_mem hzero
        rw [Use.shut, ht.idle hne, if_pos rfl]
  | exhausted hm hlimits hlength hnone =>
    exact .exhausted (Nat.lt_succ_of_lt hm) hlimits hlength hnone
  | limited hm hlimits hlimit hlength huse hleft hidle =>
    exact .limited (Nat.lt_succ_of_lt hm) hlimits hlimit hlength huse hleft hidle

/-- What the rounds say about the run. -/
theorem Round.emits {limits : List Nat} {k : Nat} {r : Run α} (h : Round events limits k r) :
    Emits events limits k r := by
  cases h with
  -- No stage has reached its limit, and the source still goes on.
  | running ht hstages hlimits hlength =>
    obtain ⟨hasked, hgiven⟩ := ht.use
    constructor
    case handled => exact take_eq_take_min (Nat.le_refl k) hlimits (Or.inl rfl)
    case completed =>
      refine ⟨fun h => (by cases h), fun h => ?_⟩
      exact absurd hlength (Nat.ne_of_lt h)
    case given => exact hgiven.trans hlength.symm
    case asked => exact Or.inl (hasked.trans hlength.symm)
    case within => exact fun n hn => (Nat.le_of_eq hasked).trans (hlimits n hn)
    case left => exact fun h => (by cases h)
    case untouched =>
      intro hzero
      have hk : k = 0 := Nat.le_zero.1 (hlimits 0 hzero)
      subst hk
      exact ht.idle (hstages ▸ List.ne_nil_of_mem hzero)
  -- The source has ended before any limit was reached.
  | exhausted hm hlimits hlength hnone =>
    rename_i t m
    constructor
    case handled =>
      exact take_eq_take_min (Nat.le_of_lt hm) (fun n hn => Nat.le_of_lt (hlimits n hn))
        (Or.inr (Or.inl hnone))
    case completed => exact ⟨fun _ => (Nat.le_of_eq hlength).trans_lt hm, fun _ => rfl⟩
    case given => exact hlength.symm
    case asked =>
      dsimp only
      rw [hlength]
      exact Or.inr ⟨rfl, hnone⟩
    case within => exact fun n hn => hlimits n hn
    case left => exact fun _ h => (by cases h)
    case untouched => exact fun hzero => absurd (hlimits 0 hzero) (Nat.not_lt_zero m)
  -- Some stage has reached its limit, and the rest is left where it was.
  | limited hm hlimits hlimit hlength huse hleft hidle =>
    constructor
    case handled =>
      exact take_eq_take_min (Nat.le_of_lt hm) hlimits (Or.inr (Or.inr hlimit))
    case completed => exact ⟨fun _ => (Nat.le_of_eq hlength).trans_lt hm, fun _ => rfl⟩
    case given => exact huse.2.trans hlength.symm
    case asked => exact Or.inl (huse.1.trans hlength.symm)
    case within => exact fun n hn => (Nat.le_of_eq huse.1).trans (hlimits n hn)
    case left => exact fun _ => hleft
    case untouched => exact hidle

/-- Whatever stages are queued, in whatever order, over any source. -/
theorem run_emits (queue : List Stage) (events : Stream'.Seq α) (k : Nat) :
    Emits events (limits queue) k (Run.turns events false k (start α queue)) := by
  have hround : Round events (limits queue) k (Run.turns events false k (start α queue)) := by
    induction k with
    | zero =>
      obtain ⟨hfresh, hlimits⟩ := tf_fresh queue
      have hlength : (events.take 0).length = 0 := by rw [Stream'.Seq.take_zero, List.length_nil]
      have hstart := Round.running hfresh.running hlimits (fun n _ => Nat.zero_le n) hlength
      rwa [Stream'.Seq.take_zero] at hstart
    | succ k ih => exact ih.turn
  exact hround.emits

end LocalPost.Scheduler.Triggers
