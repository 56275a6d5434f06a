import LocalPost.Core.Lts
import Mathlib.Algebra.Order.Group.Int
import Mathlib.Order.Bounds.Basic
import Mathlib.Order.Iterate

/-!
# The cron trigger

`wait_trigger` sends an event as soon as the consumer asks for the first one. From then on it sleeps
for one time span after the other and sends an event after each, if the consumer waits for one at
that moment; an event for which nobody waits is skipped. `Cron` takes the time spans from the
instants of its schedule: the first is the way from where the iterator stands to the next instant,
the others are the ways between successive instants.

The time is a whole number of some unit and sleeping is exact. `cron_paced` says when the wake-ups
come, and that they are instants of the schedule when the schedule repeats itself over the time
between the position of the iterator and the first event.
-/

set_option autoImplicit false

namespace LocalPost.Scheduler.Cron

open LocalPost.Core

/-! ## `wait_trigger` -/

/-- Where `generate` is: in the first `send`, asleep until the given time, at its end. -/
inductive Gen where
  | sending
  | sleeping (wake : Int)
  | stopped
  deriving DecidableEq, Repr

/-- A send: its time, and whether the consumer has got the event. -/
structure Firing where
  time : Int
  delivered : Bool
  deriving DecidableEq, Repr

/-- The clock, the generator with its iterator over the time spans, the time since which the
consumer waits for an event, and the sends. -/
structure State (σ : Type) where
  now : Int
  gen : Gen
  spans : σ
  since : Option Int
  log : List Firing
  deriving DecidableEq, Repr

/-- The clock goes on; the consumer asks for an event; the generator wakes up; it is cancelled, by
the shutdown of the task or because the consumer is gone. -/
inductive Act where
  | tick (d : Nat)
  | listen
  | wake
  | cancel
  deriving DecidableEq, Repr

namespace State

variable {σ : Type}

/-- The generator ends and closes the stream, so nobody waits any more. -/
def stop (s : State σ) : State σ := { s with gen := .stopped, since := none }

/-- `for iter_delay in time_spans`. -/
def proceed (spans : σ → Option (Int × σ)) (s : State σ) : State σ :=
  match spans s.spans with
  | some (iterDelay, rest) => { s with gen := .sleeping (s.now + iterDelay), spans := rest }
  | none => s.stop

/-- One step. The clock does not pass the time to which the generator sleeps. -/
def step (spans : σ → Option (Int × σ)) (s : State σ) : Act → Option (State σ)
  | .tick d =>
    match s.gen with
    | .sleeping wake => if s.now + d ≤ wake then some { s with now := s.now + d } else none
    | _ => some { s with now := s.now + d }
  | .listen =>
    if s.since.isSome then none
    else
      match s.gen with
      -- "Execute the first iteration immediately": this `send` waits for the consumer only.
      | .sending => some (proceed spans { s with log := s.log ++ [⟨s.now, true⟩] })
      | .sleeping _ => some { s with since := some s.now }
      | .stopped => none
  | .wake =>
    match s.gen with
    | .sleeping wake =>
      if s.now = wake then
        -- `except WouldBlock`: nobody waits, so nobody gets it.
        some (proceed spans { s with since := none, log := s.log ++ [⟨s.now, s.since.isSome⟩] })
      else none
    | _ => none
  | .cancel => if s.gen = .stopped then none else some s.stop

end State

/-- `wait_trigger`, entered at the time `start`. -/
def waitTrigger {σ : Type} (spans : σ → Option (Int × σ)) (first : σ) (start : Int) :
    Lts (State σ) Act where
  init := fun s => s = ⟨start, .sending, first, none, []⟩
  step := State.step spans

/-! ## The time spans of a schedule -/

/-- What croniter says of `get_next()`: from any position, it goes to the first instant behind
it. -/
def Croniter (Instant : Int → Prop) (getNext : Int → Int) : Prop :=
  ∀ cur, IsLeast {y | Instant y ∧ cur < y} (getNext cur)

/-- `intervals()`, by the position of the iterator. -/
def intervals (getNext : Int → Int) (cur : Int) : Option (Int × Int) :=
  some (getNext cur - cur, getNext cur)

/-- The trigger of a schedule whose iterator stands at `built`, entered at the time `start`. -/
def cron (getNext : Int → Int) (built start : Int) : Lts (State Int) Act :=
  waitTrigger (intervals getNext) built start

/-- While the consumer waits no instant goes by: the event of an instant that comes up then is sent
before the clock goes on. -/
def Unskipped (Instant : Int → Prop) (start : Int) (s : State Int) : Prop :=
  ∀ w y, s.since = some w → Instant y → start < y → w < y → s.now ≤ y

/-- Events at instants of the schedule only, in order, from the start on, and none skipped. -/
structure Follows (Instant : Int → Prop) (start : Int) (s : State Int) : Prop where
  instants : ∀ f ∈ s.log, f.delivered = true → Instant f.time
  increasing : (s.log.map Firing.time).Pairwise (· < ·)
  notBefore : ∀ f ∈ s.log, start ≤ f.time
  unskipped : Unskipped Instant start s

/-- The pace of the trigger: the first event does not keep anybody waiting; the sends come in order,
from the start on, with the distances of the successive instants behind `built` between those after
the first; and who waits has got no less than the next of them. -/
structure Paced (getNext : Int → Int) (built start : Int) (s : State Int) : Prop where
  immediate : s.log = [] → s.since = none
  increasing : (s.log.map Firing.time).Pairwise (· < ·)
  notBefore : ∀ f ∈ s.log, start ≤ f.time
  spaced : ∃ shift : Int, s.log.tail.map Firing.time =
    (List.range s.log.tail.length).map fun k => getNext^[k + 1] built + shift
  heard : ∀ w, s.since = some w → ∀ f ∈ s.log, f.time ≤ w

/-- The schedule behind `built` looks as it does `gap` later. -/
def Repeats (Instant : Int → Prop) (built gap : Int) : Prop :=
  ∀ y, built < y → (Instant y ↔ Instant (y + gap))

/-! ## The run -/

variable {Instant : Int → Prop} {getNext : Int → Int} {built start : Int}

/-- The times of the first `n` sends, of which the first is `gap` behind `built`. -/
def times (getNext : Int → Int) (built gap : Int) (n : Nat) : List Int :=
  (List.range n).map fun k => getNext^[k] built + gap

theorem times_succ (gap : Int) (n : Nat) :
    times getNext built gap (n + 1) = times getNext built gap n ++ [getNext^[n] built + gap] := by
  rw [times, List.range_succ, List.map_append]
  rfl

/-- Where a run can be: before the first event, asleep with `n` wake-ups behind it, at its end. -/
inductive Pace (getNext : Int → Int) (built start : Int) : State Int → Prop where
  | sending {now : Int} (hnow : start ≤ now) : Pace getNext built start
    ⟨now, .sending, built, none, []⟩
  | sleeping {now gap : Int} {n : Nat} {since : Option Int} {log : List Firing}
      (hgap : start ≤ built + gap) (hlast : getNext^[n] built + gap ≤ now)
      (hnow : now ≤ getNext^[n + 1] built + gap)
      (hsince : ∀ w, since = some w → getNext^[n] built + gap ≤ w)
      (hlog : log.map Firing.time = times getNext built gap (n + 1)) :
      Pace getNext built start
        ⟨now, .sleeping (getNext^[n + 1] built + gap), getNext^[n + 1] built, since, log⟩
  | stopped {now gap cur : Int} {n : Nat} {log : List Firing} (hgap : start ≤ built + gap)
      (hlog : log.map Firing.time = times getNext built gap n) :
      Pace getNext built start ⟨now, .stopped, cur, none, log⟩

theorem lt_getNext (hcron : Croniter Instant getNext) (x : Int) : x < getNext x := (hcron x).1.2

/-- A send is followed by a sleep to the next instant, as far behind it as the first event was
behind `built`. -/
theorem pace_proceed (hcron : Croniter Instant getNext) {gap : Int} {n : Nat} {log : List Firing}
    (hgap : start ≤ built + gap) (hlog : log.map Firing.time = times getNext built gap (n + 1)) :
    Pace getNext built start (State.proceed (intervals getNext)
      ⟨getNext^[n] built + gap, .stopped, getNext^[n] built, none, log⟩) := by
  have hwake : getNext^[n] built + gap + (getNext (getNext^[n] built) - getNext^[n] built) =
      getNext^[n + 1] built + gap := by
    rw [Function.iterate_succ_apply']
    omega
  have hnow : getNext^[n] built + gap ≤ getNext^[n + 1] built + gap := by
    have hlt := lt_getNext hcron (getNext^[n] built)
    rw [Function.iterate_succ_apply']
    omega
  have hsince : ∀ w : Int, none = some w → getNext^[n] built + gap ≤ w := by
    rintro w ⟨⟩
  have hpace := Pace.sleeping hgap (Int.le_refl _) hnow hsince hlog
  rw [State.proceed, intervals]
  dsimp only
  rw [hwake, ← Function.iterate_succ_apply' getNext n built]
  exact hpace

/-- The waits follow croniter's instants, whatever happens. -/
theorem pace_step (hcron : Croniter Instant getNext) {s t : State Int} {a : Act}
    (h : Pace getNext built start s) (hstep : s.step (intervals getNext) a = some t) :
    Pace getNext built start t := by
  cases h with
  | sending hnow =>
    rename_i now
    cases a with
    | tick d =>
      cases hstep
      exact .sending (le_add_of_le_of_nonneg hnow (Int.natCast_nonneg d))
    | listen =>
      -- the first event: `gap` is its distance from `built`
      cases hstep
      have hgap : built + (now - built) = now := by omega
      have hzero : getNext^[0] built + (now - built) = now := hgap
      have hstart : start ≤ built + (now - built) := by omega
      have hlog : [Firing.mk now true].map Firing.time = times getNext built
        (now - built) (0 + 1) :=
        congrArg (fun x => [x]) hzero.symm
      have hpace := pace_proceed hcron hstart hlog
      rw [hzero] at hpace
      exact hpace
    | wake => cases hstep
    | cancel =>
      cases hstep
      have hstart : start ≤ built + (now - built) := by omega
      exact .stopped (n := 0) hstart rfl
  | sleeping hgap hlast hnow hsince hlog =>
    rename_i now gap n since log
    cases a with
    | tick d =>
      rw [State.step] at hstep
      dsimp only at hstep
      split at hstep
      · rename_i hle
        cases hstep
        exact .sleeping hgap (by omega) hle hsince hlog
      · cases hstep
    | listen =>
      rw [State.step] at hstep
      split at hstep
      · cases hstep
      · cases hstep
        have hsince' : ∀ w, some now = some w → getNext^[n] built + gap ≤ w := by
          intro w hw
          exact Option.some.inj hw ▸ hlast
        exact .sleeping hgap hlast hnow hsince' hlog
    | wake =>
      rw [State.step] at hstep
      dsimp only at hstep
      split at hstep
      · rename_i hwake
        cases hstep
        have hlog' : (log ++ [Firing.mk now since.isSome]).map Firing.time =
            times getNext built gap (n + 1 + 1) := by
          rw [List.map_append, hlog, times_succ gap (n + 1), ← hwake]
          rfl
        have hpace := pace_proceed hcron hgap hlog'
        rw [← hwake] at hpace
        exact hpace
      · cases hstep
    | cancel =>
      cases hstep
      exact .stopped hgap hlog
  | stopped hgap hlog =>
    cases a with
    | tick d =>
      cases hstep
      exact .stopped hgap hlog
    | listen => cases hstep
    | wake => cases hstep
    | cancel => cases hstep

/-- Every state of the trigger is on its pace. -/
theorem pace_reachable (hcron : Croniter Instant getNext) {s : State Int}
    (h : (cron getNext built start).Reachable s) : Pace getNext built start s := by
  have hstart : ∀ r, (cron getNext built start).init r → Pace getNext built start r := by
    rintro r rfl
    exact .sending (Int.le_refl start)
  exact Lts.invariant hstart (fun r a u hr hu => pace_step hcron hr hu) h

theorem iterate_lt (hcron : Croniter Instant getNext) {m n : Nat} (hmn : m < n) :
    getNext^[m] built < getNext^[n] built := by
  have hmono : StrictMono fun n => getNext^[n] built := by
    apply strictMono_nat_of_lt_succ
    intro n
    rw [Function.iterate_succ_apply']
    exact lt_getNext hcron _
  exact hmono hmn

theorem iterate_le (hcron : Croniter Instant getNext) {m n : Nat} (hmn : m ≤ n) :
    getNext^[m] built ≤ getNext^[n] built := by
  cases Nat.lt_or_eq_of_le hmn with
  | inl hlt => exact Int.le_of_lt (iterate_lt hcron hlt)
  | inr heq => exact Int.le_of_eq (by rw [heq])

theorem times_increasing (hcron : Croniter Instant getNext) (gap : Int) (n : Nat) :
    (times getNext built gap n).Pairwise (· < ·) := by
  rw [times, List.pairwise_map]
  apply List.pairwise_lt_range.imp
  intro i j hij
  exact Int.add_lt_add_right (iterate_lt hcron hij) gap

/-- The first time is the least, the last the greatest. -/
theorem bounds_of_mem_times (hcron : Croniter Instant getNext) {gap y : Int} {n : Nat}
    (h : y ∈ times getNext built gap (n + 1)) :
    built + gap ≤ y ∧ y ≤ getNext^[n] built + gap := by
  obtain ⟨k, hk, rfl⟩ := List.mem_map.1 h
  have hfirst : built ≤ getNext^[k] built := iterate_le hcron (Nat.zero_le k)
  have hlast : getNext^[k] built ≤ getNext^[n] built :=
    iterate_le hcron (Nat.le_of_lt_succ (List.mem_range.1 hk))
  omega

theorem times_tail (gap : Int) (n : Nat) :
    (times getNext built gap n).tail =
      (List.range (n - 1)).map fun k => getNext^[k + 1] built + gap := by
  cases n with
  | zero => rfl
  | succ n =>
    rw [times, List.range_succ_eq_map, List.map_cons, List.tail_cons, List.map_map]
    rfl

/-- A run on its pace. -/
theorem paced_of_times (hcron : Croniter Instant getNext) {s : State Int} {gap : Int} {n : Nat}
    (hgap : start ≤ built + gap) (hlog : s.log.map Firing.time = times getNext built gap n)
    (himmediate : s.log = [] → s.since = none)
    (hheard : ∀ w, s.since = some w → ∀ f ∈ s.log, f.time ≤ w) : Paced getNext built start s := by
  have hlength : s.log.length = n := by
    have h := congrArg List.length hlog
    rwa [List.length_map, times, List.length_map, List.length_range] at h
  constructor
  case immediate => exact himmediate
  case increasing =>
    rw [hlog]
    exact times_increasing hcron gap n
  case notBefore =>
    intro f hf
    have hmem : f.time ∈ times getNext built gap n := hlog ▸ List.mem_map_of_mem hf
    cases n with
    | zero => cases hmem
    | succ n => exact Int.le_trans hgap (bounds_of_mem_times hcron hmem).1
  case spaced =>
    refine ⟨gap, ?_⟩
    rw [List.map_tail, hlog, times_tail, List.length_tail, hlength]
  case heard => exact hheard

/-- If the schedule repeats itself after `gap`, so do the instants that the iterator goes to. -/
theorem instant_of_repeats (hcron : Croniter Instant getNext) {gap : Int}
    (hrepeats : Repeats Instant built gap) (n : Nat) : Instant (getNext^[n + 1] built + gap) := by
  have hbehind : built < getNext^[n + 1] built := iterate_lt hcron (Nat.succ_pos n)
  apply (hrepeats _ hbehind).1
  rw [Function.iterate_succ_apply']
  exact (hcron _).1.1

/-- And there is no instant between two of them. -/
theorem wake_le_of_repeats (hcron : Croniter Instant getNext) {gap y : Int} {n : Nat}
    (hrepeats : Repeats Instant built gap) (hy : Instant y) (hlt : getNext^[n] built + gap < y) :
    getNext^[n + 1] built + gap ≤ y := by
  have hfirst : built ≤ getNext^[n] built := iterate_le hcron (Nat.zero_le n)
  have hshifted : Instant (y - gap) := by
    rw [hrepeats _ (by omega), Int.sub_add_cancel]
    exact hy
  have hle : getNext (getNext^[n] built) ≤ y - gap := (hcron _).2 ⟨hshifted, by omega⟩
  rw [Function.iterate_succ_apply']
  omega

theorem instants_of_times (hcron : Croniter Instant getNext) {log : List Firing} {gap : Int}
    {n : Nat}
    (hlog : log.map Firing.time = times getNext built gap n)
    (hrepeats : Repeats Instant built gap) : ∀ f ∈ log.tail, Instant f.time := by
  intro f hf
  have hmem : f.time ∈ log.tail.map Firing.time := List.mem_map_of_mem hf
  rw [List.map_tail, hlog, times_tail] at hmem
  obtain ⟨k, -, hk⟩ := List.mem_map.1 hmem
  exact hk ▸ instant_of_repeats hcron hrepeats k

/-- The first firing is one gap behind the building of the trigger. -/
theorem gap_of_head {log : List Firing} {first : Firing} {gap : Int} {n : Nat}
    (hlog : log.map Firing.time = times getNext built gap n) (hfirst : log.head? = some first) :
    first.time - built = gap := by
  have hhead := congrArg List.head? hlog
  rw [List.head?_map, hfirst] at hhead
  cases n with
  | zero => cases hhead
  | succ n =>
    rw [times, List.range_succ_eq_map, List.map_cons, List.head?_cons] at hhead
    have heq : first.time = built + gap := Option.some.inj hhead
    omega

/-- The first event is sent when it is asked for, and from then on the trigger keeps its pace. When
the schedule repeats itself over the time from `built` to the first event, as it does when there is
none in between, the sends behind the first are at instants of the schedule, and none of these is
skipped. -/
theorem cron_paced (hcron : Croniter Instant getNext) {s : State Int}
    (h : (cron getNext built start).Reachable s) :
    Paced getNext built start s ∧
      ∀ first, s.log.head? = some first → Repeats Instant built (first.time - built) →
        (∀ f ∈ s.log.tail, Instant f.time) ∧ Unskipped Instant start s := by
  cases pace_reachable hcron h with
  | sending hnow =>
    have hgap : start ≤ built + (start - built) := by omega
    refine ⟨paced_of_times (n := 0) hcron hgap rfl (fun _ => rfl) ?_, ?_⟩
    · rintro w ⟨⟩
    · rintro first ⟨⟩
  | sleeping hgap hlast hnow hsince hlog =>
    rename_i now gap n since log
    have hheard : ∀ w, since = some w → ∀ f ∈ log, f.time ≤ w := by
      intro w hw f hf
      have hmem : f.time ∈ times getNext built gap (n + 1) := hlog ▸ List.mem_map_of_mem hf
      exact Int.le_trans (bounds_of_mem_times hcron hmem).2 (hsince w hw)
    have hne : log ≠ [] := by
      rintro rfl
      rw [times_succ] at hlog
      exact List.append_ne_nil_of_right_ne_nil _ (List.cons_ne_nil _ _) hlog.symm
    refine ⟨paced_of_times hcron hgap hlog (fun hnil => absurd hnil hne) hheard, ?_⟩
    intro first hfirst hrepeats
    rw [gap_of_head hlog hfirst] at hrepeats
    refine ⟨instants_of_times hcron hlog hrepeats, ?_⟩
    intro w y hw hy hafter hwy
    -- the consumer has waited since the last wake-up, so the next one is not behind `y`
    have hlt : getNext^[n] built + gap < y := Int.lt_of_le_of_lt (hsince w hw) hwy
    exact Int.le_trans hnow (wake_le_of_repeats hcron hrepeats hy hlt)
  | stopped hgap hlog =>
    refine ⟨paced_of_times hcron hgap hlog (fun _ => rfl) (fun w hw => (by cases hw)), ?_⟩
    intro first hfirst hrepeats
    rw [gap_of_head hlog hfirst] at hrepeats
    exact ⟨instants_of_times hcron hlog hrepeats, fun w y hw => (by cases hw)⟩

/-- Every five minutes, in seconds. -/
def fiveMinutes (y : Int) : Prop := y % 300 = 0

/-- Every five minutes: the next multiple of 300 seconds. -/
theorem croniter_fiveMinutes : Croniter fiveMinutes fun cur => (cur / 300 + 1) * 300 := by
  intro cur
  refine ⟨⟨?_, ?_⟩, ?_⟩
  · exact Int.mul_emod_left _ _
  · dsimp only
    omega
  · rintro y ⟨hy, hlt⟩
    rw [fiveMinutes] at hy
    dsimp only
    omega

/-- Built and entered at second 100, with a consumer that is there at once: events at 100 and
300. -/
theorem cron_paced_fiveMinutes :
    ∃ s, (cron (fun cur => (cur / 300 + 1) * 300) 100 100).Reachable s ∧
      s.log = [⟨100, true⟩, ⟨300, true⟩] ∧
      Paced (fun cur => (cur / 300 + 1) * 300) 100 100 s ∧
      (∀ f ∈ s.log.tail, fiveMinutes f.time) ∧ Unskipped fiveMinutes 100 s := by
  have hreach := Lts.Reachable.of_isSome
    (M := cron (fun cur => (cur / 300 + 1) * 300) 100 100) rfl
    [.listen, .listen, .tick 200, .wake] rfl
  have hrepeats : Repeats fiveMinutes 100 (100 - 100) := by
    intro y _
    rw [Int.sub_self, Int.add_zero]
  obtain ⟨hpaced, hrest⟩ := cron_paced croniter_fiveMinutes hreach
  obtain ⟨hinstants, hunskipped⟩ := hrest ⟨100, true⟩ rfl hrepeats
  exact ⟨_, hreach, rfl, hpaced, hinstants, hunskipped⟩

/-- The first of these events is at no instant of the schedule. -/
theorem first_event_off_schedule :
    ∃ s, (cron (fun cur => (cur / 300 + 1) * 300) 100 100).Reachable s ∧ s.log = [⟨100, true⟩] ∧
      ¬Follows fiveMinutes 100 s := by
  have hreach := Lts.Reachable.of_isSome
    (M := cron (fun cur => (cur / 300 + 1) * 300) 100 100) rfl [.listen] rfl
  refine ⟨_, hreach, rfl, fun hfollows => ?_⟩
  have hinstant : (100 : Int) % 300 = 0 := hfollows.instants ⟨100, true⟩ List.mem_cons_self rfl
  exact absurd hinstant (by decide)

end LocalPost.Scheduler.Cron
