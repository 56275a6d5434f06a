import LocalPost.Scheduler.Shared
import Mathlib.Logic.Function.Basic

/-!
# Schedules that follow each other's tasks

A schedule runs its task for the events of its trigger. `after(target)` and `after_all(target)`
subscribe to another task when the schedule begins and yield its results; the other triggers have
events of their own. A trigger refers to a task that has been created before it, so the schedules
form a forest.

The schedules begin, get events and return in any order. `Inv` describes the states this leads to:
it ties what the handler of a schedule was called with to what its stream has received, and what the
stream has accepted to what the target has published.
-/

set_option autoImplicit false

namespace LocalPost.Scheduler.Chained

open LocalPost.Core

/-- What a schedule waits for: something of its own (a period, a cron expression), or the results of
a task. -/
inductive Condition (ι : Type) where
  | own
  | after (target : ι)
  | afterAll (target : ι)
  deriving DecidableEq, Repr

/-- What a trigger yields: `None`, the value of a result, a result. -/
inductive Event (V E : Type) where
  | none
  | value (v : V)
  | result (r : Result V E)
  deriving DecidableEq, Repr

namespace Condition

variable {ι V E : Type}

/-- `target`. -/
def target? : Condition ι → Option ι
  | .own => none
  | .after target => some target
  | .afterAll target => some target

/-- What `run` does with a result: `after` skips a failure. -/
def yields : Condition ι → Result V E → Option (Event V E)
  | .own, _ => none
  | .after _, .ok v => some (.value v)
  | .after _, .failure _ => none
  | .afterAll _, r => some (.result r)

end Condition

/-- The schedules of a scheduler, one for each task, and the order in which their tasks were
created. -/
structure Schedules (ι : Type) where
  condition : ι → Condition ι
  created : ι → Nat
  earlier : ∀ j a : ι, (condition j).target? = some a → created a < created j

/-- Where the `run` of a schedule stands: it has not begun; it asks its trigger for an event; the
trigger has an event and has not yielded it yet (`delay`); it is in the handler; it is done; it had
no trigger. -/
inductive Place (V E : Type) where
  | waiting
  | asking
  | holding (e : Event V E)
  | handling
  | completed
  | failed
  deriving DecidableEq, Repr

namespace Place

variable {V E : Type}

/-- The trigger has been made. -/
def begun : Place V E → Bool
  | .waiting => false
  | .failed => false
  | _ => true

/-- The schedule is a user of its task. -/
def inside : Place V E → Bool
  | .asking => true
  | .holding _ => true
  | .handling => true
  | _ => false

/-- The event that has not been yielded. -/
def held : Place V E → List (Event V E)
  | .holding e => [e]
  | _ => []

/-- How many calls of the handler have not returned. -/
def calls : Place V E → Nat
  | .handling => 1
  | _ => 0

end Place

/-- The run of a schedule. `stream` is the position of its stream among those of its target,
`events` is what its handler was called with. No step reads the rest: how many events its trigger
got, how many results its target had published when it began, whether it has left a stream that had
not ended. -/
structure Run (V E : Type) where
  place : Place V E
  stream : Nat
  events : List (Event V E)
  got : Nat
  since : Nat
  left : Bool
  deriving DecidableEq, Repr

/-- The schedules, their tasks, and what each task has published. -/
structure State (σ V E ι : Type) where
  task : ι → Task σ
  results : ι → List (Result V E)
  run : ι → Run V E

/-- What can happen: a schedule begins; a trigger has an event of its own, or ends by itself; a
trigger gets a result, or the end of its stream; an event is yielded; the handler returns or raises;
a stage of the trigger leaves it (`take_first`, or `delay` at a shutdown). -/
inductive Act (V E ι : Type) where
  | start (j : ι)
  | fire (j : ι)
  | exhausted (j : ι)
  | receive (j : ι)
  | deliver (j : ι)
  | handled (j : ι) (r : Result V E)
  | leave (j : ι)

section

variable {σ V E ι : Type} [DecidableEq ι] (M : MemoryStreams σ (Result V E)) (S : Schedules ι)

namespace State

/-- One schedule goes on. -/
def goOn (s : State σ V E ι) (j : ι) (r : Run V E) : State σ V E ι :=
  { s with run := Function.update s.run j r }

/-- One task is changed. -/
def setTask (s : State σ V E ι) (a : ι) (t : Task σ) : State σ V E ι :=
  { s with task := Function.update s.task a t }

/-- `async with trigger as t_events, self.task`. -/
def enter (s : State σ V E ι) (j : ι) (r : Run V E) : State σ V E ι :=
  (s.setTask j (s.task j).enter).goOn j { r with place := .asking }

/-- `task_exec_results.close()`. -/
def closeStream (s : State σ V E ι) (j : ι) : State σ V E ι :=
  match (S.condition j).target? with
  | none => s
  | some a => s.setTask a { s.task a with
      streams := (s.task a).streams.modify (s.run j).stream M.closeReceive }

/-- The end of the `async with`: the trigger closes its stream, and the schedule leaves its task. -/
def finish (s : State σ V E ι) (j : ι) (r : Run V E) : State σ V E ι :=
  let closed := s.closeStream M S j
  (closed.setTask j ((closed.task j).exit M)).goOn j { r with place := .completed }

/-- `run` begins: `After.__call__` subscribes, which raises when the target has finished. -/
def begin (s : State σ V E ι) (j : ι) : State σ V E ι :=
  match (S.condition j).target? with
  | none => s.enter j (s.run j)
  | some a =>
    match (s.task a).subscribe M none with
    | .error _ => s.goOn j { s.run j with place := .failed }
    | .ok t => (s.setTask a t).enter j { s.run j with
        stream := (s.task a).streams.length
        since := (s.results a).length }

/-- One turn of the generator of `After` or `AfterAll`: `none` when it waits. -/
def next (s : State σ V E ι) (j a : ι) : Option (State σ V E ι) :=
  ((s.task a).streams[(s.run j).stream]?).bind fun c =>
    match (M.receive c).1 with
    | some r =>
      some ((s.setTask a ((s.task a).setStream (s.run j).stream (M.receive c).2)).goOn j
        { s.run j with
        got := (s.run j).got + 1
        place := (((S.condition j).yields r).map Place.holding).getD .asking })
    | none => if M.sendClosed c then some (s.finish M S j (s.run j)) else none

/-- The end of `Task.__call__`; the last case is an exception of the publication. -/
def publish (s : State σ V E ι) (j : ι) (r : Result V E) : State σ V E ι :=
  let published : State σ V E ι :=
    { s.setTask j ((s.task j).publishResult M r).1 with
      results := Function.update s.results j (s.results j ++ [r]) }
  match ((s.task j).publishResult M r).2 with
  | none => published.goOn j { s.run j with place := .asking }
  | some _ => published.finish M S j (s.run j)

/-- One step. -/
def step (s : State σ V E ι) : Act V E ι → Option (State σ V E ι)
  | .start j =>
    match (s.run j).place with
    | .waiting => some (s.begin M S j)
    | _ => none
  | .fire j =>
    match (s.run j).place, (S.condition j).target? with
    | .asking, none =>
      some (s.goOn j { s.run j with got := (s.run j).got + 1, place := .holding .none })
    | _, _ => none
  | .exhausted j =>
    match (s.run j).place, (S.condition j).target? with
    | .asking, none => some (s.finish M S j (s.run j))
    | _, _ => none
  | .receive j =>
    match (s.run j).place, (S.condition j).target? with
    | .asking, some a => s.next M S j a
    | _, _ => none
  | .deliver j =>
    match (s.run j).place with
    | .holding e =>
      some (s.goOn j { s.run j with place := .handling, events := (s.run j).events ++ [e] })
    | _ => none
  | .handled j r =>
    match (s.run j).place with
    | .handling => some (s.publish M S j r)
    | _ => none
  | .leave j =>
    match (s.run j).place with
    | .asking => some (s.finish M S j { s.run j with left := true })
    | .holding _ => some (s.finish M S j { s.run j with left := true })
    | _ => none

end State

/-- Nothing has begun. -/
def initial : State σ V E ι :=
  ⟨fun _ => .fresh, fun _ => [], fun _ => ⟨.waiting, 0, [], 0, 0, false⟩⟩

/-- The schedules as a transition system. -/
def chain : Lts (State σ V E ι) (Act V E ι) := ⟨(· = initial), State.step M S⟩

/-! ## The invariant -/

/-- Every schedule that waits for the task has stayed to the end of its stream. -/
def Calm (s : State σ V E ι) (a : ι) : Prop :=
  ∀ k : ι, (S.condition k).target? = some a → (s.run k).left = false

/-- A schedule and its own task. -/
structure Own (t : Task σ) (results : List (Result V E)) (r : Run V E) : Prop where
  users : t.users = if r.place.inside then 1 else 0
  finished : t.finished = true ↔ r.place = .completed
  opened : t.finished = false → Task.Open M t
  counted : r.events.length = results.length + r.place.calls
  held : (r.events ++ r.place.held).length ≤ r.got
  left : r.left = true → r.place = .completed
  fresh : r.place.begun = false → r.got = 0

/-- A schedule and its stream `c` of the task that it waits for. -/
structure Link (Unbounded : σ → Prop) (condition : Condition ι) (calm : Prop) (t : Task σ)
    (results : List (Result V E)) (r : Run V E) (c : σ) : Prop where
  here : t.streams[r.stream]? = some c
  unbounded : Unbounded c
  sendClosed : M.sendClosed c = t.finished
  since : r.since ≤ results.length
  accepted : (M.accepted c).Sublist (results.drop r.since)
  exact : calm → M.accepted c = results.drop r.since
  got : r.got = (M.received c).length
  listed : r.place ≠ .completed → M.receiveClosed c = false ∧ r.stream ∈ t.subscribers
  events : (r.events ++ r.place.held).Sublist ((M.received c).filterMap condition.yields)
  kept : r.left = false → r.events ++ r.place.held = (M.received c).filterMap condition.yields
  drained : r.place = .completed → r.left = false → t.finished = true ∧ M.received c = M.accepted c

/-- What holds in every state of a run. -/
structure Inv (Unbounded : σ → Prop) (s : State σ V E ι) : Prop where
  own : ∀ j : ι, Own M (s.task j) (s.results j) (s.run j)
  link : ∀ j a : ι, (S.condition j).target? = some a → (s.run j).place.begun = true →
    ∃ c : σ, Link M Unbounded (S.condition j) (Calm S s a) (s.task a) (s.results a) (s.run j) c
  owner : ∀ (a : ι) (i : Nat), i < (s.task a).streams.length →
    ∃ j : ι, (S.condition j).target? = some a ∧ (s.run j).place.begun = true ∧ (s.run j).stream = i
  apart : ∀ j k a : ι, (S.condition j).target? = some a → (S.condition k).target? = some a →
    (s.run j).place.begun = true → (s.run k).place.begun = true →
      (s.run j).stream = (s.run k).stream → j = k

variable {M S} {Unbounded : σ → Prop}

omit [DecidableEq ι] in
theorem inv_initial : Inv M S Unbounded (initial : State σ V E ι) where
  own j := ⟨rfl, by simp [initial, Task.fresh], fun _ => ⟨fun _ h => (by cases h), List.nodup_nil,
    fun _ h => (by cases h)⟩, rfl, Nat.le_refl _, fun h => (by cases h), fun _ => rfl⟩
  link j a _ h := by cases h
  owner a i h := absurd h (Nat.not_lt_zero i)
  apart j k a _ _ h := by cases h

omit [DecidableEq ι] in
theorem Schedules.target_ne (S : Schedules ι) {j a : ι} (h : (S.condition j).target? = some a) :
    a ≠ j := by
  rintro rfl
  exact Nat.lt_irrefl _ (S.earlier a a h)

omit [DecidableEq ι] in
theorem Link.mono {condition : Condition ι} {p q : Prop} {t : Task σ} {results : List (Result V E)}
    {r : Run V E} {c : σ} (h : Link M Unbounded condition p t results r c) (hqp : q → p) :
    Link M Unbounded condition q t results r c :=
  { h with exact := fun hq => h.exact (hqp hq) }

/-- The invariant after a step of the schedule `j`: its own part, and what becomes of the streams of
the others. -/
theorem Inv.of_step {s t : State σ V E ι} (h : Inv M S Unbounded s) (j : ι)
    (hrun : ∀ k : ι, k ≠ j → t.run k = s.run k)
    (hleft : (t.run j).left = false → (s.run j).left = false)
    (hown : ∀ k : ι, Own M (t.task k) (t.results k) (t.run k))
    (hself : ∀ a : ι, (S.condition j).target? = some a → (t.run j).place.begun = true →
      ∃ c : σ, Link M Unbounded (S.condition j) (Calm S s a ∧ (t.run j).left = false) (t.task a)
        (t.results a) (t.run j) c)
    (hothers : ∀ (k a : ι) (c : σ), k ≠ j → (S.condition k).target? = some a →
      (s.run k).place.begun = true →
      Link M Unbounded (S.condition k) (Calm S s a) (s.task a) (s.results a) (s.run k) c →
        ∃ c' : σ, Link M Unbounded (S.condition k) (Calm S s a) (t.task a)
          (t.results a) (s.run k) c')
    (howner : ∀ (a : ι) (i : Nat), i < (t.task a).streams.length → i < (s.task a).streams.length ∨
      (S.condition j).target? = some a ∧ (t.run j).place.begun = true ∧ (t.run j).stream = i)
    (hbegun : (s.run j).place.begun = true →
      (t.run j).place.begun = true ∧ (t.run j).stream = (s.run j).stream)
    (hnew : (s.run j).place.begun = false → (t.run j).place.begun = true → ∀ a : ι,
      (S.condition j).target? = some a → (t.run j).stream = (s.task a).streams.length) :
    Inv M S Unbounded t := by
  -- who has stayed now had stayed before
  have hcalm : ∀ a : ι, Calm S t a → Calm S s a := by
    intro a ht k hk
    by_cases hkj : k = j
    · subst hkj
      exact hleft (ht k hk)
    · rw [← hrun k hkj]
      exact ht k hk
  have hat : ∀ k a : ι, (S.condition k).target? = some a → (s.run k).place.begun = true →
      (s.run k).stream < (s.task a).streams.length := by
    intro k a hk hb
    obtain ⟨c, hc⟩ := h.link k a hk hb
    exact (List.getElem?_eq_some_iff.1 hc.here).1
  -- a stream that is new is nobody else's
  have hfresh : ∀ k a : ι, k ≠ j → (S.condition j).target? = some a →
    (S.condition k).target? = some a →
      (t.run j).place.begun = true → (s.run k).place.begun = true →
          (t.run j).stream ≠ (s.run k).stream := by
    intro k a hkj hj hk hbj hbk heq
    cases hb : (s.run j).place.begun with
    | true => exact hkj (h.apart k j a hk hj hbk hb (heq.symm.trans (hbegun hb).2))
    | false => exact Nat.lt_irrefl _ ((hnew hb hbj a hj).symm.trans heq ▸ hat k a hk hbk)
  constructor
  · exact hown
  · intro k a hk hb
    by_cases hkj : k = j
    · subst hkj
      obtain ⟨c, hc⟩ := hself a hk hb
      exact ⟨c, hc.mono fun ht => ⟨hcalm a ht, ht k hk⟩⟩
    · rw [hrun k hkj] at hb ⊢
      obtain ⟨c, hc⟩ := h.link k a hk hb
      obtain ⟨c', hc'⟩ := hothers k a c hkj hk hb hc
      exact ⟨c', hc'.mono (hcalm a)⟩
  · intro a i hi
    rcases howner a i hi with hold | hnewest
    · obtain ⟨k, hk, hb, hstream⟩ := h.owner a i hold
      by_cases hkj : k = j
      · subst hkj
        exact ⟨k, hk, (hbegun hb).1, (hbegun hb).2.trans hstream⟩
      · rw [← hrun k hkj] at hb hstream
        exact ⟨k, hk, hb, hstream⟩
    · exact ⟨j, hnewest⟩
  · intro k l a hk hl hbk hbl heq
    by_cases hkj : k = j
    · by_cases hlj : l = j
      · rw [hkj, hlj]
      · subst hkj
        rw [hrun l hlj] at hbl heq
        exact absurd heq (hfresh l a hlj hk hl hbk hbl)
    · rw [hrun k hkj] at hbk heq
      by_cases hlj : l = j
      · subst hlj
        exact absurd heq.symm (hfresh k a hkj hl hk hbl hbk)
      · rw [hrun l hlj] at hbl heq
        exact h.apart k l a hk hl hbk hbl heq

/-! ## What a step does -/

/-- The schedule `j` goes on, with the streams and the tasks as they are. -/
theorem Inv.goOn {s : State σ V E ι} (h : Inv M S Unbounded s) {j : ι} {r : Run V E}
    (hown : Own M (s.task j) (s.results j) r) (hbegun : r.place.begun = (s.run j).place.begun)
    (hstream : r.stream = (s.run j).stream) (hleft : r.left = (s.run j).left)
    (hlink : ∀ (a : ι) (p : Prop) (c : σ), (S.condition j).target? = some a → r.place.begun = true →
      Link M Unbounded (S.condition j) p (s.task a) (s.results a) (s.run j) c →
        Link M Unbounded (S.condition j) p (s.task a) (s.results a) r c) :
    Inv M S Unbounded (s.goOn j r) := by
  have hself : (s.goOn j r).run j = r := Function.update_self ..
  have hother : ∀ k : ι, k ≠ j → (s.goOn j r).run k = s.run k := fun k hk =>
    Function.update_of_ne hk ..
  -- Only run `j` has moved; its task and what it has published are the same.
  apply h.of_step j hother
  · rw [hself, hleft]
    exact fun hl => hl
  · intro k
    by_cases hk : k = j
    · subst hk
      rw [hself]
      exact hown
    · rw [hother k hk]
      exact h.own k
  · intro a ha hb
    rw [hself] at hb ⊢
    obtain ⟨c, hc⟩ := h.link j a ha (hbegun.symm.trans hb)
    exact ⟨c, (hlink a _ c ha hb hc).mono And.left⟩
  · exact fun k a c _ _ _ hc => ⟨c, hc⟩
  · exact fun a i hi => .inl hi
  · intro hb
    -- no stream is new
    rw [hself]
    exact ⟨hbegun.trans hb, hstream⟩
  · intro hb hb'
    rw [hself, hbegun, hb] at hb'
    cases hb'

/-- An event of its own comes to a schedule that asks. -/
theorem Inv.fire {s : State σ V E ι} (h : Inv M S Unbounded s) {j : ι}
    (hplace : (s.run j).place = .asking) (hown : (S.condition j).target? = none) :
    Inv M S Unbounded
      (s.goOn j { s.run j with got := (s.run j).got + 1, place := .holding .none }) := by
  obtain ⟨husers, hfinished, hopened, hcounted, hheld, hleft, -⟩ := h.own j
  rw [hplace] at husers hfinished hcounted hheld hleft
  apply h.goOn
  · refine ⟨husers, ?_, hopened, hcounted, ?_, ?_, fun heq => nomatch heq⟩
    · rw [hfinished]
      simp
    · rw [List.length_append] at hheld ⊢
      exact Nat.succ_le_succ hheld
    · intro hl
      cases hleft hl
  · rw [hplace]
    rfl
  · rfl
  · rfl
  · intro a p c ha
    rw [hown] at ha
    cases ha

/-- An event that is handed over is the next one of its schedule. -/
theorem Inv.deliver {s : State σ V E ι} (h : Inv M S Unbounded s) {j : ι} {e : Event V E}
    (hplace : (s.run j).place = .holding e) :
    Inv M S Unbounded
      (s.goOn j { s.run j with place := .handling, events := (s.run j).events ++ [e] }) := by
  obtain ⟨husers, hfinished, hopened, hcounted, hheld, hleft, -⟩ := h.own j
  rw [hplace] at husers hfinished hcounted hheld hleft
  -- the event moves from the trigger to the handler
  have hevents : ((s.run j).events ++ [e]) ++ Place.held .handling = (s.run j).events ++
      (s.run j).place.held := by
    rw [hplace]
    exact List.append_nil _
  apply h.goOn
  · refine ⟨husers, ?_, hopened, ?_, ?_, ?_, fun heq => nomatch heq⟩
    · rw [hfinished]
      simp
    · rw [List.length_append, hcounted]
      rfl
    · rw [hevents, hplace]
      exact hheld
    · intro hl
      cases hleft hl
  · rw [hplace]
    rfl
  · rfl
  · rfl
  · intro a p c _ _ hc
    have hne : (s.run j).place ≠ .completed := by
      rw [hplace]
      exact fun heq => nomatch heq
    exact { hc with
      listed := fun _ => hc.listed hne
      events := hevents ▸ hc.events
      kept := fun hl => hevents.trans (hc.kept hl)
      drained := fun heq => nomatch heq }

/-- A schedule that cannot subscribe fails, and nothing else changes. -/
theorem Inv.failed {s : State σ V E ι} (h : Inv M S Unbounded s) {j : ι}
    (hplace : (s.run j).place = .waiting) :
    Inv M S Unbounded (s.goOn j { s.run j with place := .failed }) := by
  obtain ⟨husers, hfinished, hopened, hcounted, hheld, hleft, hfresh⟩ := h.own j
  rw [hplace] at husers hfinished hcounted hheld hleft hfresh
  apply h.goOn
  · refine ⟨husers, ?_, hopened, hcounted, hheld, ?_, fun _ => hfresh rfl⟩
    · rw [hfinished]
      simp
    · intro hl
      cases hleft hl
  · rw [hplace]
    rfl
  · rfl
  · rfl
  · intro a p c _ hb
    cases hb

omit [DecidableEq ι] in
/-- The target is another one, and the stream is where it was. -/
theorem Link.ofTask {condition : Condition ι} {p : Prop} {t t' : Task σ}
    {results : List (Result V E)}
    {r : Run V E} {c : σ} (h : Link M Unbounded condition p t results r c)
    (hhere : t'.streams[r.stream]? = some c) (hfinished : t'.finished = t.finished)
    (hlisted : r.stream ∈ t.subscribers → r.stream ∈ t'.subscribers) :
    Link M Unbounded condition p t' results r c :=
  { h with
    here := hhere
    sendClosed := h.sendClosed.trans hfinished.symm
    listed := fun hne => ⟨(h.listed hne).1, hlisted (h.listed hne).2⟩
    drained := fun hc hl => ⟨hfinished.trans (h.drained hc hl).1, (h.drained hc hl).2⟩ }

/-- A schedule that begins asks a stream of its own. -/
theorem Own.enter {t : Task σ} {results : List (Result V E)} {r : Run V E} (h : Own M t results r)
    (hplace : r.place = .waiting) (stream since : Nat) :
    Own M t.enter results { r with stream := stream, since := since, place := .asking } := by
  obtain ⟨husers, hfinished, hopened, hcounted, hheld, hleft, -⟩ := h
  rw [hplace] at husers hfinished hcounted hheld hleft
  constructor
  · change t.users + 1 = 1
    rw [husers]
    rfl
  · change t.finished = true ↔ _
    rw [hfinished]
    simp
  · intro hfin
    obtain ⟨hsending, hnodup, hvalid⟩ := hopened hfin
    exact ⟨hsending, hnodup, hvalid⟩
  · exact hcounted
  · exact hheld
  · intro hl
    cases hleft hl
  · intro heq
    cases heq

/-- The schedule has a trigger of its own. -/
theorem Inv.enter {s : State σ V E ι} (h : Inv M S Unbounded s) {j : ι}
    (hplace : (s.run j).place = .waiting)
    (hown : (S.condition j).target? = none) : Inv M S Unbounded (s.enter j (s.run j)) := by
  have hself : (s.enter j (s.run j)).run j = { s.run j with place := .asking } :=
    Function.update_self ..
  have hother : ∀ k : ι, k ≠ j → (s.enter j (s.run j)).run k = s.run k := fun k hk =>
    Function.update_of_ne hk ..
  have htask : (s.enter j (s.run j)).task j = (s.task j).enter := Function.update_self ..
  have htasks : ∀ k : ι, k ≠ j → (s.enter j (s.run j)).task k = s.task k := fun k hk =>
    Function.update_of_ne hk ..
  -- entering opens no stream and closes none
  have hstreams : ∀ k : ι, ((s.enter j (s.run j)).task k).streams = (s.task k).streams := by
    intro k
    by_cases hk : k = j
    · subst hk
      rw [htask]
      rfl
    · rw [htasks k hk]
  apply h.of_step j hother
  · rw [hself]
    exact fun hl => hl
  · intro k
    by_cases hk : k = j
    · subst hk
      rw [htask, hself]
      exact (h.own k).enter hplace _ _
    · rw [htasks k hk, hother k hk]
      exact h.own k
  · intro a ha
    rw [hown] at ha
    cases ha
  · intro k a c _ _ _ hc
    refine ⟨c, ?_⟩
    -- the subscribers of `j` see its task entered, and nothing else of it
    by_cases ha : a = j
    · subst ha
      rw [htask]
      exact hc.ofTask hc.here rfl fun hmem => hmem
    · rw [htasks a ha]
      exact hc
  · intro a i hi
    rw [hstreams a] at hi
    exact .inl hi
  -- `j` had not begun before
  · intro hb
    rw [hplace] at hb
    cases hb
  · intro _ _ a ha
    rw [hown] at ha
    cases ha

/-- The schedule subscribes to its target. -/
theorem Inv.subscribe (hM : M.Documented) (hQ : M.Queues Unbounded) {s : State σ V E ι}
    (h : Inv M S Unbounded s) {j a : ι} (hplace : (s.run j).place = .waiting)
    (ha : (S.condition j).target? = some a) {t : Task σ}
    (ht : (s.task a).subscribe M none = .ok t) :
    Inv M S Unbounded ((s.setTask a t).enter j { s.run j with
      stream := (s.task a).streams.length
      since := (s.results a).length }) := by
  generalize hu : (s.setTask a t).enter j { s.run j with
      stream := (s.task a).streams.length
      since := (s.results a).length } = u
  have haj : a ≠ j := S.target_ne ha
  have hfin : (s.task a).finished = false := by
    cases hf : (s.task a).finished with
    | false => rfl
    | true =>
      rw [Task.subscribe, hf, if_pos rfl] at ht
      cases ht
  have htnew : t = { s.task a with
      streams := (s.task a).streams ++ [M.create none]
      subscribers := (s.task a).subscribers ++ [(s.task a).streams.length] } := by
    rw [Task.subscribe, if_neg (by rw [hfin]; exact Bool.false_ne_true)] at ht
    exact (Except.ok.inj ht).symm
  have hself : u.run j = { s.run j with
      stream := (s.task a).streams.length
      since := (s.results a).length
      place := .asking } := by
    rw [← hu]
    exact Function.update_self ..
  have hother : ∀ k : ι, k ≠ j → u.run k = s.run k := by
    intro k hk
    rw [← hu]
    exact Function.update_of_ne hk ..
  have htj : u.task j = (s.task j).enter := by
    rw [← hu]
    change Function.update (Function.update s.task a t) j (Function.update s.task a t j).enter j = _
    rw [Function.update_self, Function.update_of_ne haj.symm]
  have hta : u.task a = t := by
    rw [← hu]
    change Function.update (Function.update s.task a t) j _ a = _
    rw [Function.update_of_ne haj, Function.update_self]
  have htk : ∀ k : ι, k ≠ j → k ≠ a → u.task k = s.task k := by
    intro k hkj hka
    rw [← hu]
    change Function.update (Function.update s.task a t) j _ k = _
    rw [Function.update_of_ne hkj, Function.update_of_ne hka]
  have hresults : u.results = s.results := by
    rw [← hu]
    rfl
  apply h.of_step j hother
  · rw [hself]
    exact fun hl => hl
  · intro k
    rw [hresults]
    by_cases hkj : k = j
    · subst hkj
      rw [htj, hself]
      exact (h.own k).enter hplace _ _
    · rw [hother k hkj]
      by_cases hka : k = a
      · subst hka
        rw [hta, htnew]
        have hk := h.own k
        exact { hk with opened := fun _ => Shared.Open.subscribe hM (hk.opened hfin) none }
      · rw [htk k hkj hka]
        exact h.own k
  · intro b hb _
    rw [ha] at hb
    cases hb
    rw [hta, hself, hresults, htnew]
    -- the new stream is empty
    obtain ⟨hsend, hrecv, haccepted⟩ := hM.created none
    have hreceived : M.received (M.create none) = [] :=
      List.prefix_nil.1 (haccepted ▸ hM.fifo (M.create none))
    have hgot : (s.run j).got = 0 := (h.own j).fresh (by rw [hplace]; rfl)
    have hevents : (s.run j).events = [] := by
      have hheld := (h.own j).held
      rw [hplace, hgot] at hheld
      exact (List.append_eq_nil_iff.1 (List.eq_nil_of_length_eq_zero (Nat.le_zero.1 hheld))).1
    refine ⟨M.create none, ?_, hQ.created, hsend.trans hfin.symm, Nat.le_refl _, ?_,
      fun _ => ?_, ?_, fun _ => ⟨hrecv, ?_⟩, ?_, fun _ => ?_, (fun heq => by cases heq)⟩
    · exact List.getElem?_concat_length
    · rw [haccepted]
      exact List.nil_sublist _
    · rw [haccepted]
      exact List.drop_length.symm
    · rw [hreceived]
      exact hgot
    · exact List.mem_append_right _ List.mem_cons_self
    · rw [hreceived, hevents]
      exact List.Sublist.refl _
    · rw [hreceived, hevents]
      rfl
  · intro k b c hkj hk _ hc
    rw [hresults]
    refine ⟨c, ?_⟩
    by_cases hbj : b = j
    · subst hbj
      rw [htj]
      exact hc.ofTask hc.here rfl fun hmem => hmem
    · by_cases hba : b = a
      · subst hba
        rw [hta, htnew]
        refine hc.ofTask ?_ rfl fun hmem => List.mem_append_left _ hmem
        exact (List.getElem?_append_left (List.getElem?_eq_some_iff.1 hc.here).1).trans hc.here
      · rw [htk b hbj hba]
        exact hc
  · intro b i hi
    by_cases hbj : b = j
    · subst hbj
      rw [htj] at hi
      exact .inl hi
    · by_cases hba : b = a
      · subst hba
        rw [hta, htnew] at hi
        have hle : i < (s.task b).streams.length + 1 := by
          simpa only [List.length_append, List.length_singleton] using hi
        rcases Nat.lt_succ_iff_lt_or_eq.1 hle with hlt | rfl
        · exact .inl hlt
        · exact .inr ⟨ha, by rw [hself]; rfl, by rw [hself]⟩
      · rw [htk b hbj hba] at hi
        exact .inl hi
  · intro hb
    rw [hplace] at hb
    cases hb
  · intro _ _ b hb
    rw [ha] at hb
    cases hb
    rw [hself]

/-- A trigger gets a result. -/
theorem Inv.receive (hM : M.Documented) (hQ : M.Queues Unbounded) {s : State σ V E ι}
    (h : Inv M S Unbounded s) {j a : ι} (hplace : (s.run j).place = .asking)
    (ha : (S.condition j).target? = some a) {c : σ}
    (hc : (s.task a).streams[(s.run j).stream]? = some c)
    {r : Result V E} (hr : (M.receive c).1 = some r) :
    Inv M S Unbounded
      ((s.setTask a ((s.task a).setStream (s.run j).stream (M.receive c).2)).goOn j { s.run j with
      got := (s.run j).got + 1
      place := (((S.condition j).yields r).map Place.holding).getD .asking }) := by
  generalize hplace' : (((S.condition j).yields r).map Place.holding).getD .asking = next
  generalize hu : (s.setTask a ((s.task a).setStream (s.run j).stream (M.receive c).2)).goOn j
    { s.run j with
      got := (s.run j).got + 1
      place := next } = u
  have haj : a ≠ j := S.target_ne ha
  have hself : u.run j = { s.run j with got := (s.run j).got + 1, place := next } := by
    rw [← hu]
    exact Function.update_self ..
  have hother : ∀ k : ι, k ≠ j → u.run k = s.run k := by
    intro k hk
    rw [← hu]
    exact Function.update_of_ne hk ..
  have hta : u.task a = (s.task a).setStream (s.run j).stream (M.receive c).2 := by
    rw [← hu]
    exact Function.update_self ..
  have htk : ∀ k : ι, k ≠ a → u.task k = s.task k := by
    intro k hk
    rw [← hu]
    exact Function.update_of_ne hk ..
  have hresults : u.results = s.results := by
    rw [← hu]
    rfl
  have hlength : ∀ k : ι, (u.task k).streams.length = (s.task k).streams.length := by
    intro k
    by_cases hk : k = a
    · subst hk
      rw [hta]
      exact List.length_set
    · rw [htk k hk]
  have halike := hM.receive_alike c
  have hreceived := hQ.received_append hM hr
  -- what is held after it is what the result yields
  have hheld : next.held = ((S.condition j).yields r).toList := by
    rw [← hplace']
    cases (S.condition j).yields r with
    | none => rfl
    | some e => rfl
  have hinside : next.inside = true ∧ next.begun = true ∧ next.calls = 0 ∧ next ≠ .completed := by
    rw [← hplace']
    cases (S.condition j).yields r with
    | none => exact ⟨rfl, rfl, rfl, fun heq => nomatch heq⟩
    | some e => exact ⟨rfl, rfl, rfl, fun heq => nomatch heq⟩
  apply h.of_step j hother
  · rw [hself]
    exact fun hl => hl
  · intro k
    rw [hresults]
    by_cases hkj : k = j
    · subst hkj
      rw [htk k haj.symm, hself]
      obtain ⟨husers, hfinished, hopened, hcounted, hle, hleft, -⟩ := h.own k
      rw [hplace] at husers hfinished hcounted hle hleft
      refine ⟨?_, ?_, hopened, ?_, ?_, (fun hl => nomatch hleft hl), fun heq =>
        nomatch hinside.2.1.symm.trans heq⟩
      · rw [husers, hinside.1]
        rfl
      · rw [hfinished]
        exact ⟨(fun heq => nomatch heq), fun heq => absurd heq hinside.2.2.2⟩
      · rw [hcounted, hinside.2.2.1]
        rfl
      · have hone : next.held.length ≤ 1 := by
          rw [hheld]
          exact Option.length_toList_le
        rw [List.length_append] at hle ⊢
        exact Nat.add_le_add hle hone
    · rw [hother k hkj]
      by_cases hka : k = a
      · subst hka
        rw [hta]
        have hk := h.own k
        exact { hk with
          opened := fun hfin => Shared.Open.setStream (hk.opened hfin) hc halike.sendClosed }
      · rw [htk k hka]
        exact h.own k
  · intro b hb _
    rw [ha] at hb
    cases hb
    rw [hta, hself, hresults]
    obtain ⟨c', hlink⟩ := h.link j a ha (by rw [hplace]; rfl)
    cases hc.symm.trans hlink.here
    have hnil : (s.run j).place.held = [] := by
      rw [hplace]
      rfl
    have hne : (s.run j).place ≠ .completed := by
      rw [hplace]
      exact fun heq => nomatch heq
    refine ⟨(M.receive c).2, ?_, hQ.receive_unbounded c hlink.unbounded,
      halike.sendClosed.trans hlink.sendClosed, hlink.since, ?_, ?_, ?_, fun _ =>
        ⟨?_, (hlink.listed hne).2⟩, ?_,
      fun hl => ?_, fun heq => absurd heq hinside.2.2.2⟩
    · exact List.getElem?_set_self (List.getElem?_eq_some_iff.1 hc).1
    · rw [halike.accepted]
      exact hlink.accepted
    · intro hcalm
      rw [halike.accepted]
      exact hlink.exact hcalm.1
    · rw [hreceived, List.length_append, ← hlink.got]
      rfl
    · exact halike.receiveClosed.trans (hlink.listed hne).1
    · have hevents := hlink.events
      rw [hnil, List.append_nil] at hevents
      rw [hreceived, List.filterMap_append, hheld]
      refine hevents.append ?_
      cases hyields : (S.condition j).yields r with
      | none => exact List.nil_sublist _
      | some e =>
        rw [List.filterMap_cons_some hyields]
        exact List.Sublist.refl _
    · have hkept := hlink.kept hl
      rw [hnil, List.append_nil] at hkept
      rw [hreceived, List.filterMap_append, hheld, hkept]
      congr 1
  · intro k b d hkj hk hbk hd
    rw [hresults]
    refine ⟨d, ?_⟩
    by_cases hba : b = a
    · subst hba
      rw [hta]
      refine hd.ofTask ?_ rfl fun hmem => hmem
      have hne : (s.run j).stream ≠ (s.run k).stream := by
        intro heq
        exact hkj (h.apart j k b ha hk (by rw [hplace]; rfl) hbk heq).symm
      exact (List.getElem?_set_ne hne).trans hd.here
    · rw [htk b hba]
      exact hd
  · intro b i hi
    rw [hlength b] at hi
    exact .inl hi
  · intro _
    rw [hself]
    exact ⟨hinside.2.1, rfl⟩
  · intro hb
    rw [hplace] at hb
    cases hb

omit [DecidableEq ι] in
/-- The streams of a task that has finished. -/
theorem Link.closeSend (hM : M.Documented) (hQ : M.Queues Unbounded) {condition : Condition ι}
    {p : Prop} {t t' : Task σ} {results : List (Result V E)} {r : Run V E} {c : σ}
    (h : Link M Unbounded condition p t results r c) (hopen : t.finished = false)
    (hstreams : t'.streams = t.streams.map M.closeSend) (hsubs : t'.subscribers = t.subscribers)
    (hfinished : t'.finished = true) : Link M Unbounded condition p t' results r
    (M.closeSend c) := by
  obtain ⟨haccepted, hrecv, hsend⟩ := hM.closeSend_accepted c
  obtain ⟨hunbounded, hreceived⟩ := hQ.closeSend_unbounded c
  -- closing keeps what has been accepted and received, and only marks the streams
  refine ⟨?_, hunbounded h.unbounded, hsend.trans hfinished.symm, h.since, ?_,
    ?_, ?_, ?_, ?_, ?_, ?_⟩
  · rw [hstreams, List.getElem?_map, h.here]
    rfl
  · rw [haccepted]
    exact h.accepted
  · rw [haccepted]
    exact h.exact
  · rw [hreceived]
    exact h.got
  · intro hne
    rw [hrecv, hsubs]
    exact h.listed hne
  · rw [hreceived]
    exact h.events
  · rw [hreceived]
    exact h.kept
  -- nothing was drained yet, as the task was open
  · intro hc hl
    have hfin := (h.drained hc hl).1
    rw [hopen] at hfin
    cases hfin

/-! ### The end of a schedule -/

omit [DecidableEq ι] in
/-- Closing the receiving end of a stream leaves the task open. -/
theorem modify_closeReceive (hM : M.Documented) {t : Task σ} (h : Task.Open M t) (i : Nat) :
    Task.Open M { t with streams := t.streams.modify i M.closeReceive } where
  sending c hc := by
    obtain ⟨k, hk⟩ := List.mem_iff_getElem?.1 hc
    rw [List.getElem?_modify] at hk
    obtain ⟨d, hd, rfl⟩ := Option.map_eq_some_iff.1 hk
    have hopen := h.sending d (List.mem_of_getElem? hd)
    split
    · exact (hM.closeReceive_accepted d).2.1.trans hopen
    · exact hopen
  nodup := h.nodup
  valid k hk := by
    rw [List.length_modify]
    exact h.valid k hk

section

variable {s : State σ V E ι} {j : ι}

theorem closeStream_run :
    (s.closeStream M S j).run = s.run ∧ (s.closeStream M S j).results = s.results := by
  rw [State.closeStream]
  split
  · exact ⟨rfl, rfl⟩
  · exact ⟨rfl, rfl⟩

theorem closeStream_task {k : ι} (hk : (S.condition j).target? ≠ some k) :
    (s.closeStream M S j).task k = s.task k := by
  rw [State.closeStream]
  split
  · rfl
  · rename_i a ha
    exact Function.update_of_ne (fun heq => hk (ha.trans (congrArg some heq.symm))) ..

theorem closeStream_target {a : ι} (ha : (S.condition j).target? = some a) :
    (s.closeStream M S j).task a = { s.task a with
      streams := (s.task a).streams.modify (s.run j).stream M.closeReceive } := by
  rw [State.closeStream, ha]
  exact Function.update_self ..

omit [DecidableEq ι] in
theorem target_ne_self : (S.condition j).target? ≠ some j := fun heq => S.target_ne heq rfl

theorem finish_task_self (r : Run V E) : (s.finish M S j r).task j = (s.task j).exit M := by
  have htask : (s.finish M S j r).task j = ((s.closeStream M S j).task j).exit M :=
    Function.update_self ..
  rw [htask, closeStream_task target_ne_self]

theorem finish_task (r : Run V E) {k : ι} (hk : k ≠ j) :
    (s.finish M S j r).task k = (s.closeStream M S j).task k := Function.update_of_ne hk ..

theorem finish_run (r : Run V E) : (s.finish M S j r).run = Function.update s.run j
    { r with place := .completed } := by
  have hrun : (s.finish M S j r).run =
      Function.update (s.closeStream M S j).run j { r with place := .completed } := rfl
  rw [hrun, closeStream_run.1]

theorem finish_results (r : Run V E) : (s.finish M S j r).results = s.results := closeStream_run.2

end

/-- A schedule comes to its end: by itself, at the end of its stream, or because a stage leaves
it. -/
theorem Inv.finish (hM : M.Documented) (hQ : M.Queues Unbounded) {s : State σ V E ι}
    (h : Inv M S Unbounded s) {j : ι} (hinside : (s.run j).place.inside = true)
    (hcalls : (s.run j).place.calls = 0) (l : Bool) (hheld : l = false → (s.run j).place.held = [])
    (hend : l = false → ∀ (a : ι) (c : σ), (S.condition j).target? = some a →
      (s.task a).streams[(s.run j).stream]? = some c →
        (s.task a).finished = true ∧ M.received c = M.accepted c) :
    Inv M S Unbounded (s.finish M S j { s.run j with left := l }) := by
  have hbegun : (s.run j).place.begun = true := by
    cases hplace : (s.run j).place <;> rw [hplace] at hinside <;> first | rfl | cases hinside
  have hne : (s.run j).place ≠ .completed := by
    intro heq
    rw [heq] at hinside
    cases hinside
  have hopen : (s.task j).finished = false := by
    cases hf : (s.task j).finished with
    | false => rfl
    | true => exact absurd ((h.own j).finished.1 hf) hne
  -- its own task has no user left: it is finished, and all its streams are closed
  have hexit : (s.task j).exit M = { s.task j with
      users := (s.task j).users - 1
      finished := true
      streams := (s.task j).streams.map M.closeSend } := by
    rw [Task.exit, if_pos]
    rw [(h.own j).users, hinside]
    rfl
  have hself : (s.finish M S j { s.run j with left := l }).run j =
      { s.run j with left := l, place := .completed } := by
    rw [finish_run, Function.update_self]
  have hother : ∀ k : ι, k ≠ j → (s.finish M S j { s.run j with left := l }).run k = s.run k := by
    intro k hk
    rw [finish_run, Function.update_of_ne hk]
  have hlength : ∀ k : ι, ((s.finish M S j { s.run j with left := l }).task k).streams.length =
      (s.task k).streams.length := by
    intro k
    by_cases hk : k = j
    · subst hk
      rw [finish_task_self, hexit]
      exact List.length_map ..
    · rw [finish_task _ hk]
      by_cases ht : (S.condition j).target? = some k
      · rw [closeStream_target ht]
        exact List.length_modify ..
      · rw [closeStream_task ht]
  apply h.of_step j hother
  · rw [hself]
    -- a run that has left before would be completed
    intro _
    cases hleft : (s.run j).left with
    | false => rfl
    | true => exact absurd ((h.own j).left hleft) hne
  -- the task of `j`, then the one that it was subscribed to, then the others
  · intro k
    rw [finish_results]
    by_cases hk : k = j
    · subst hk
      rw [finish_task_self, hself, hexit]
      have hown := h.own k
      refine ⟨?_, ⟨fun _ => rfl, fun _ => rfl⟩, (fun hfin => by cases hfin), ?_, ?_, fun _ => rfl,
        (fun heq => by cases heq)⟩
      · change (s.task k).users - 1 = 0
        rw [hown.users, hinside]
        rfl
      · have hcounted := hown.counted
        rw [hcalls] at hcounted
        exact hcounted
      · have hheld := hown.held
        rw [List.length_append] at hheld
        change ((s.run k).events ++ []).length ≤ _
        rw [List.append_nil]
        exact Nat.le_trans (Nat.le_add_right _ _) hheld
    -- of the task that it was subscribed to only its own stream is closed
    · rw [finish_task _ hk, hother k hk]
      have hown := h.own k
      by_cases ht : (S.condition j).target? = some k
      · rw [closeStream_target ht]
        exact { hown with opened := fun hfin => modify_closeReceive hM (hown.opened hfin) _ }
      · rw [closeStream_task ht]
        exact hown
  · intro a ha _
    rw [finish_task _ (S.target_ne ha), closeStream_target ha, finish_results, hself]
    obtain ⟨c, hc⟩ := h.link j a ha hbegun
    obtain ⟨haccepted, hsend, hrecv⟩ := hM.closeReceive_accepted c
    obtain ⟨hunbounded, hreceived⟩ := hQ.closeReceive_unbounded c
    refine ⟨M.closeReceive c, ?_, hunbounded hc.unbounded, hsend.trans hc.sendClosed, hc.since, ?_,
      ?_, ?_, fun heq => absurd rfl heq, ?_, ?_, ?_⟩
    · rw [List.getElem?_modify, hc.here]
      simp
    · rw [haccepted]
      exact hc.accepted
    · rw [haccepted]
      exact fun hcalm => hc.exact hcalm.1
    · rw [hreceived]
      exact hc.got
    · rw [hreceived]
      change ((s.run j).events ++ []).Sublist _
      rw [List.append_nil]
      exact (List.sublist_append_left _ _).trans hc.events
    -- a run that has not left has handed on all it received
    · intro hl
      have hleft : (s.run j).left = false := by
        cases hleft : (s.run j).left with
        | false => rfl
        | true => exact absurd ((h.own j).left hleft) hne
      have hkept := hc.kept hleft
      rw [hheld hl] at hkept
      rw [hreceived]
      exact hkept
    · intro _ hl
      rw [hreceived, haccepted]
      exact hend hl a c ha hc.here
  -- the subscribers of `j` have their streams closed at the sending end
  · intro k a c hk ha hbk hc
    rw [finish_results]
    by_cases haj : a = j
    · subst haj
      rw [finish_task_self, hexit]
      exact ⟨_, hc.closeSend hM hQ hopen rfl rfl rfl⟩
    · rw [finish_task _ haj]
      refine ⟨c, ?_⟩
      by_cases ht : (S.condition j).target? = some a
      · rw [closeStream_target ht]
        refine hc.ofTask ?_ rfl fun hmem => hmem
        -- another subscriber of the same task has a stream of its own
        have hne : (s.run j).stream ≠ (s.run k).stream := fun heq =>
          hk (h.apart j k a ht ha hbegun hbk heq).symm
        rw [List.getElem?_modify, hc.here]
        simp [hne]
      · rw [closeStream_task ht]
        exact hc
  · intro a i hi
    rw [hlength a] at hi
    exact .inl hi
  · intro _
    rw [hself]
    exact ⟨rfl, rfl⟩
  · intro hb
    rw [hbegun] at hb
    cases hb

/-! ### A publication -/

omit [DecidableEq ι] in
/-- What sending keeps of a stream, a publication keeps. -/
theorem publishLoop_sends (P : σ → σ → Prop)
    (hsend : ∀ (c d e : σ) (r : Result V E), P c d → M.sendNowait d r = .ok e → P c e)
    (result : Result V E) (fuel i : Nat) {t₀ t : Task σ}
    (h : ∀ (id : Nat) (c : σ), t₀.streams[id]? = some c → ∃ d, t.streams[id]? = some d ∧ P c d)
    {id : Nat} {c : σ} (hc : t₀.streams[id]? = some c) :
    ∃ d, (Task.publishLoop M result fuel i t).1.streams[id]? = some d ∧ P c d := by
  -- the stream that is sent to changes by one send, the others not at all
  induction fuel generalizing i t with
  | zero => exact h id c hc
  | succ fuel ih =>
    rw [Task.publishLoop]
    cases hx : t.subscribers[i]? with
    | none => exact h id c hc
    | some x =>
      cases hd : t.streams[x]? with
      | none =>
        simp only [hd]
        exact ih (i + 1) h
      | some d =>
        simp only [hd]
        cases hsent : M.sendNowait d result with
        | ok e =>
          apply ih (i + 1)
          intro id' c' hc'
          obtain ⟨d', hd', hP⟩ := h id' c' hc'
          by_cases hid : x = id'
          · subst hid
            cases hd.symm.trans hd'
            refine ⟨e, ?_, hsend c' d e result hP hsent⟩
            exact List.getElem?_set_self (List.getElem?_eq_some_iff.1 hd).1
          · exact ⟨d', (List.getElem?_set_ne hid).trans hd', hP⟩
        | error e =>
          cases e with
          -- a closed stream ends the loop; behind a broken or a full one the next round follows
          | closedResource => exact h id c hc
          | brokenResource =>
            apply ih (i + 1)
            exact h
          | wouldBlock => exact ih (i + 1) h

theorem visited_eq_self {gone : Nat → Bool} {l : List Nat} (h : ∀ x ∈ l, gone x = false) :
    Task.visited gone l = l := by
  induction l with
  | nil => rfl
  | cons x l ih =>
    rw [Task.visited_cons_of_not (h x List.mem_cons_self), ih fun y hy =>
      h y (List.mem_cons_of_mem _ hy)]

omit [DecidableEq ι] in
/-- The handler has returned or raised: what becomes of a stream of its task. -/
theorem Link.publish (hM : M.Documented) (hQ : M.Queues Unbounded) {s : State σ V E ι}
    (h : Inv M S Unbounded s) {j k : ι} (hplace : (s.run j).place = .handling) (r : Result V E)
    (hk : (S.condition k).target? = some j) (hbegun : (s.run k).place.begun = true) {c : σ}
    (hc : Link M Unbounded (S.condition k) (Calm S s j) (s.task j) (s.results j) (s.run k) c) :
    ∃ c', Link M Unbounded (S.condition k) (Calm S s j) ((s.task j).publishResult M r).1
      (s.results j ++ [r]) (s.run k) c' := by
  have hopen : (s.task j).finished = false := by
    cases hf : (s.task j).finished with
    | false => rfl
    | true =>
      have heq := (h.own j).finished.1 hf
      rw [hplace] at heq
      cases heq
  have hOpen := (h.own j).opened hopen
  obtain ⟨t', ht', hwalked⟩ := Task.publishResult_walked hM hOpen r
  obtain ⟨c', hc', hout⟩ := hwalked.stream (s.run k).stream c hc.here
  have hends := Shared.closed_of_gets (hOpen.sending c (List.mem_of_getElem? hc.here)) hout
  -- sending touches neither what has been received nor the bound
  have hkeeps : (Unbounded c → Unbounded c') ∧ M.received c' = M.received c := by
    obtain ⟨d, hd, hP⟩ := publishLoop_sends (M := M)
      (fun c d => (Unbounded c → Unbounded d) ∧ M.received d = M.received c)
      (fun c d e x hP hsent =>
        ⟨fun hu => (hQ.sent d x e hsent).1 (hP.1 hu), (hQ.sent d x e hsent).2.trans hP.2⟩)
      r (s.task j).subscribers.length 0 (fun id c hc => ⟨c, hc, fun hu => hu, rfl⟩) hc.here
    have ht : (Task.publishLoop M r (s.task j).subscribers.length 0 (s.task j)).1 = t' :=
      congrArg Prod.fst ht'
    rw [ht] at hd
    cases hc'.symm.trans hd
    exact hP
  rw [ht']
  refine ⟨c', hc', hkeeps.1 hc.unbounded, hends.1.trans (hwalked.finished.trans hopen).symm, ?_, ?_,
    ?_, ?_, ?_, ?_, ?_, ?_⟩
  · rw [List.length_append]
    exact Nat.le_trans hc.since (Nat.le_add_right _ _)
  · -- the result is added at the end, or not
    rw [List.drop_append_of_le_length hc.since]
    have hsame : c' = c → (M.accepted c').Sublist ((s.results j).drop (s.run k).since ++ [r]) := by
      rintro rfl
      exact hc.accepted.trans (List.sublist_append_left _ _)
    split at hout
    · rw [Task.Gets] at hout
      split at hout
      · rw [hout.2.2]
        exact hc.accepted.append (List.Sublist.refl _)
      · exact hsame hout
    · exact hsame hout
  · intro hcalm
    rw [List.drop_append_of_le_length hc.since]
    -- nobody has closed a stream of this task
    have hstays : ∀ l : ι, (S.condition l).target? = some j → (s.run l).place.begun = true →
        (s.run l).place ≠ .completed := by
      intro l hl hb heq
      obtain ⟨d, hd⟩ := h.link l j hl hb
      have hfin := (hd.drained heq (hcalm l hl)).1
      rw [hopen] at hfin
      cases hfin
    have hlive : ∀ i ∈ (s.task j).subscribers, (s.task j).broken M i = false := by
      intro i hi
      obtain ⟨l, hl, hb, hstream⟩ := h.owner j i (hOpen.valid i hi)
      obtain ⟨d, hd⟩ := h.link l j hl hb
      rw [← hstream, Task.broken_eq hd.here]
      exact (hd.listed (hstays l hl hb)).1
    have hlisted := hc.listed (hstays k hk hbegun)
    rw [visited_eq_self hlive, if_pos hlisted.2, Task.Gets, if_pos] at hout
    · rw [hout.2.2, hc.exact hcalm]
    · rw [MemoryStreams.live, hlisted.1, hQ.room c hc.unbounded]
      rfl
  · rw [hkeeps.2]
    exact hc.got
  · intro hne
    obtain ⟨hrecv, hmem⟩ := hc.listed hne
    refine ⟨hends.2.trans hrecv, ?_⟩
    obtain ⟨kept, hsubs, -, hkeep⟩ := hwalked.kept
    rw [hsubs, List.nil_append]
    exact hkeep _ hmem ((Task.broken_eq hc.here).trans hrecv)
  · rw [hkeeps.2]
    exact hc.events
  · rw [hkeeps.2]
    exact hc.kept
  · intro heq hl
    have hfin := (hc.drained heq hl).1
    rw [hopen] at hfin
    cases hfin

/-- Publishing a result sends it to every open stream, in its place. -/
theorem Inv.publish (hM : M.Documented) (hQ : M.Queues Unbounded) {s : State σ V E ι}
    (h : Inv M S Unbounded s) {j : ι} (hplace : (s.run j).place = .handling) (r : Result V E) :
    Inv M S Unbounded (s.publish M S j r) := by
  have hopen : (s.task j).finished = false := by
    cases hf : (s.task j).finished with
    | false => rfl
    | true =>
      have heq := (h.own j).finished.1 hf
      rw [hplace] at heq
      cases heq
  have hOpen := (h.own j).opened hopen
  -- The task has walked over its subscribers; the results have one more.
  obtain ⟨t', ht', hwalked⟩ := Task.publishResult_walked hM hOpen r
  have hu : s.publish M S j r = ({ s.setTask j t' with
      results := Function.update s.results j (s.results j ++ [r]) } : State σ V E ι).goOn j
        { s.run j with place := .asking } := by
    rw [State.publish, ht']
  rw [hu]
  generalize huu : ({ s.setTask j t' with
      results := Function.update s.results j (s.results j ++ [r]) } : State σ V E ι).goOn j
        { s.run j with place := .asking } = u
  have hself : u.run j = { s.run j with place := .asking } := by
    rw [← huu]
    exact Function.update_self ..
  have hother : ∀ k : ι, k ≠ j → u.run k = s.run k := by
    intro k hk
    rw [← huu]
    exact Function.update_of_ne hk ..
  have htj : u.task j = t' := by
    rw [← huu]
    exact Function.update_self ..
  have htk : ∀ k : ι, k ≠ j → u.task k = s.task k := by
    intro k hk
    rw [← huu]
    exact Function.update_of_ne hk ..
  have hrj : u.results j = s.results j ++ [r] := by
    rw [← huu]
    exact Function.update_self ..
  have hrk : ∀ k : ι, k ≠ j → u.results k = s.results k := by
    intro k hk
    rw [← huu]
    exact Function.update_of_ne hk ..
  apply h.of_step j hother
  · rw [hself]
    exact fun hl => hl
  -- the own counts: the event was handled, and its result is the new one
  · intro k
    by_cases hk : k = j
    · subst hk
      rw [htj, hrj, hself]
      obtain ⟨husers, hfinished, hopened, hcounted, hheld, hleft, -⟩ := h.own k
      rw [hplace] at husers hfinished hcounted hheld hleft
      refine ⟨hwalked.users.trans husers, ?_, fun _ => Shared.Open.publish hOpen hwalked, ?_, hheld,
        (fun hl => nomatch hleft hl), fun heq => nomatch heq⟩
      · rw [hwalked.finished, hfinished]
        simp
      · rw [List.length_append]
        exact hcounted
    · rw [htk k hk, hrk k hk, hother k hk]
      exact h.own k
  -- `j` as a subscriber: nothing was received or handed on
  · intro a ha _
    rw [htk a (S.target_ne ha), hrk a (S.target_ne ha), hself]
    obtain ⟨c, hc⟩ := h.link j a ha (by rw [hplace]; rfl)
    have hne : (s.run j).place ≠ .completed := by
      rw [hplace]
      exact fun heq => nomatch heq
    have hnil : (s.run j).place.held = [] := by
      rw [hplace]
      rfl
    have hevents := hc.events
    have hkept := hc.kept
    rw [hnil] at hevents hkept
    exact ⟨c, { hc with
      exact := fun hcalm => hc.exact hcalm.1
      listed := fun _ => hc.listed hne
      events := hevents
      kept := hkept
      drained := fun heq => nomatch heq }⟩
  -- `j` as a publisher: each of its subscribers gets the result
  · intro k a c hk ha hbk hc
    by_cases haj : a = j
    · subst haj
      rw [htj, hrj]
      have hlink := Link.publish hM hQ h hplace r ha hbk hc
      rw [ht'] at hlink
      exact hlink
    · rw [htk a haj, hrk a haj]
      exact ⟨c, hc⟩
  · intro a i hi
    by_cases haj : a = j
    · subst haj
      rw [htj, hwalked.length] at hi
      exact .inl hi
    · rw [htk a haj] at hi
      exact .inl hi
  · intro _
    rw [hself]
    exact ⟨rfl, rfl⟩
  · intro hb
    rw [hplace] at hb
    cases hb

/-! ## Every run -/

/-- Every step keeps the streams in line with the results. -/
theorem Inv.step (hM : M.Documented) (hQ : M.Queues Unbounded) {s t : State σ V E ι}
    (h : Inv M S Unbounded s) {a : Act V E ι} (hstep : s.step M S a = some t) :
    Inv M S Unbounded t := by
  cases a with
  | start j =>
    simp only [State.step] at hstep
    split at hstep
    · rename_i hplace
      cases hstep
      rw [State.begin]
      -- an event of its own, or of another task: that one has finished, or it is subscribed to
      split
      · rename_i ht
        exact h.enter hplace ht
      · rename_i a ht
        split
        · exact h.failed hplace
        · rename_i u hu
          exact h.subscribe hM hQ hplace ht hu
    · cases hstep
  | fire j =>
    simp only [State.step] at hstep
    split at hstep
    · rename_i hplace ht
      cases hstep
      exact h.fire hplace ht
    · cases hstep
  | exhausted j =>
    simp only [State.step] at hstep
    split at hstep
    · rename_i hplace ht
      cases hstep
      -- only a completed run has left
      have hleft : (s.run j).left = false := by
        cases hl : (s.run j).left with
        | false => rfl
        | true =>
          have heq := (h.own j).left hl
          rw [hplace] at heq
          cases heq
      have hrun : s.run j = { s.run j with left := false } := by rw [← hleft]
      rw [hrun]
      -- the trigger is exhausted: there is nothing to receive from another task
      apply h.finish hM hQ
      · rw [hplace]
        rfl
      · rw [hplace]
        rfl
      · intro _
        rw [hplace]
        rfl
      · intro _ a c ha
        rw [ht] at ha
        cases ha
    · cases hstep
  | receive j =>
    simp only [State.step] at hstep
    split at hstep
    · rename_i a hplace ht
      rw [State.next, Option.bind_eq_some_iff] at hstep
      obtain ⟨c, hc, hnext⟩ := hstep
      -- an item is in the stream, or it is empty and closed
      split at hnext
      · rename_i r hr
        cases hnext
        exact h.receive hM hQ hplace ht hc hr
      · rename_i hr
        split at hnext
        · rename_i hclosed
          cases hnext
          have hleft : (s.run j).left = false := by
            cases hl : (s.run j).left with
            | false => rfl
            | true =>
              have heq := (h.own j).left hl
              rw [hplace] at heq
              cases heq
          have hrun : s.run j = { s.run j with left := false } := by rw [← hleft]
          rw [hrun]
          apply h.finish hM hQ
          · rw [hplace]
            rfl
          · rw [hplace]
            rfl
          · intro _
            rw [hplace]
            rfl
          -- at its end all that was accepted has been received
          · intro _ b d hb hd
            rw [ht] at hb
            cases hb
            cases hc.symm.trans hd
            obtain ⟨d, hlink⟩ := h.link j a ht (by rw [hplace]; rfl)
            cases hc.symm.trans hlink.here
            exact ⟨hlink.sendClosed.symm.trans hclosed, hQ.received_eq hM hr⟩
        · cases hnext
    · cases hstep
  | deliver j =>
    simp only [State.step] at hstep
    split at hstep
    · rename_i e hplace
      cases hstep
      exact h.deliver hplace
    · cases hstep
  | handled j r =>
    simp only [State.step] at hstep
    split at hstep
    · rename_i hplace
      cases hstep
      exact h.publish hM hQ hplace r
    · cases hstep
  | leave j =>
    simp only [State.step] at hstep
    split at hstep
    · rename_i hplace
      cases hstep
      -- a run that leaves has nothing to account for
      exact h.finish hM hQ (by rw [hplace]; rfl) (by rw [hplace]; rfl) true (fun hl => nomatch hl)
        (fun hl => nomatch hl)
    · rename_i e hplace
      cases hstep
      exact h.finish hM hQ (by rw [hplace]; rfl) (by rw [hplace]; rfl) true (fun hl => nomatch hl)
        (fun hl => nomatch hl)
    · cases hstep

theorem inv_reachable (hM : M.Documented) (hQ : M.Queues Unbounded) {s : State σ V E ι}
    (h : (chain M S).Reachable s) : Inv M S Unbounded s := by
  apply Lts.invariant (M := chain M S) _ _ h
  · rintro s rfl
    exact inv_initial
  · intro s a t hs hstep
    exact hs.step hM hQ hstep

omit [DecidableEq ι] in
/-- What a schedule has been called with, against what its target has published. -/
theorem Link.delivers {condition : Condition ι} {p : Prop} (hM : M.Documented) {t : Task σ}
    {results : List (Result V E)} {r : Run V E} {c : σ}
    (h : Link M Unbounded condition p t results r c) :
    r.events.Sublist ((results.drop r.since).filterMap condition.yields) ∧
      (p → r.left = false → r.events <+: (results.drop r.since).filterMap condition.yields) := by
  constructor
  · have hevents := (List.sublist_append_left _ _).trans h.events
    have hreceived := (hM.fifo c).sublist.trans h.accepted
    exact hevents.trans (hreceived.filterMap _)
  · intro hp hl
    rw [← h.exact hp]
    have hkept : r.events <+: (M.received c).filterMap condition.yields := ⟨_, h.kept hl⟩
    exact hkept.trans ((hM.fifo c).filterMap _)

/-- In every run of the schedules of a scheduler, the handler of a schedule has returned once for
each of its task's results, up to the call that is on its way; and a schedule that waits for a task
is called with what this task has published since it began, in order and nothing twice, and with
nothing missing in between as long as no schedule has left a stream of the task before its end. -/
theorem chain_delivers (hM : M.Documented) (hQ : M.Queues Unbounded) {s : State σ V E ι}
    (h : (chain M S).Reachable s) {j a : ι} (ha : (S.condition j).target? = some a) :
    (s.run j).events.length = (s.results j).length + (s.run j).place.calls ∧
      (s.run j).events.Sublist
      (((s.results a).drop (s.run j).since).filterMap (S.condition j).yields) ∧
      (Calm S s a → (s.run j).events <+:
        ((s.results a).drop (s.run j).since).filterMap (S.condition j).yields) := by
  have hinv := inv_reachable hM hQ h
  refine ⟨(hinv.own j).counted, ?_⟩
  cases hbegun : (s.run j).place.begun with
  | true =>
    obtain ⟨c, hc⟩ := hinv.link j a ha hbegun
    obtain ⟨hsub, hprefix⟩ := hc.delivers hM
    exact ⟨hsub, fun hcalm => hprefix hcalm (hcalm j ha)⟩
  | false =>
    -- nothing has been asked for
    have hle := (hinv.own j).held
    rw [(hinv.own j).fresh hbegun] at hle
    have hnil := (List.append_eq_nil_iff.1 (List.eq_nil_of_length_eq_zero (Nat.le_zero.1 hle))).1
    rw [hnil]
    exact ⟨List.nil_sublist _, fun _ => List.nil_prefix⟩

end

/-- The task `true` runs after the task `false`. -/
def twoTasks : Schedules Bool where
  condition j := if j then .after false else .own
  created := Bool.toNat
  earlier := by decide

/-- The earlier task fails and then succeeds. -/
def failsOnce : List (Act Nat String Bool) :=
  [.start false, .start true, .fire false, .deliver false, .handled false (.failure "busy"),
    .receive true,
    .fire false, .deliver false, .handled false (.ok 5), .receive true, .deliver true]

theorem chain_delivers_failsOnce :
    ((((chain Deque.streams twoTasks).exec initial failsOnce).map fun s => (s.run true).events) =
      some [.value 5]) ∧
      ∃ s, (chain Deque.streams twoTasks).exec initial failsOnce = some s ∧
        (s.run true).events.Sublist
          (((s.results false).drop (s.run true).since).filterMap
            (Condition.after false).yields) := by
  have hrun : ((chain Deque.streams twoTasks).exec initial failsOnce).isSome = true := rfl
  have hdelivers :=
    chain_delivers Deque.documented Deque.queues (Lts.Reachable.of_isSome rfl failsOnce hrun)
    (S := twoTasks) (j := true) (a := false) rfl
  exact ⟨rfl, _, (Option.some_get hrun).symm, hdelivers.2.1⟩

end LocalPost.Scheduler.Chained
