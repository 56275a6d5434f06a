import LocalPost.Core.Lts
import Mathlib.Logic.Function.Basic

/-!
# The lifetime of a hosted service

The attributes of a `ServiceLifetime` are written by the loop of the host alone: a call of
`set_started`, `set_shutting_down`, `shutdown` or `stop` from another thread goes through the
portal. Any thread may read `state`, attribute by attribute, while the loop is between two
assignments of one call. So a call is modelled by the list of assignments it makes (`Write`), the
loop executes them one at a time, and an observer reads one attribute at a time.

Every observer sees the state move forward only, and what it says of the reason and of the exception
does not change once it is said (`state_moves_forward`).
-/

set_option autoImplicit false

namespace LocalPost.Hosting

open LocalPost.Core

/-- An exception, or an `ExceptionGroup` of them. -/
inductive Exc (ε : Type) where
  | single (e : ε)
  | group (es : List (Exc ε))

/-- `unwrap_exc`: a group of one stands for its member. -/
def unwrapExc {ε : Type} : Exc ε → Exc ε
  | .group [e] => unwrapExc e
  | e => e

/-- What a caller may give as the reason of a shutdown, apart from `None`. -/
inductive Reason (ε : Type) where
  | exception (e : Exc ε)
  | text (s : String)

/-- `ServiceState`. -/
inductive ServiceState (ε : Type) where
  | starting
  | running
  | shuttingDown (reason : Option (Reason ε))
  | stopped (reason : Option (Reason ε)) (exception : Option (Exc ε))

namespace ServiceState

variable {ε : Type}

/-- The place in the order `Starting`, `Running`, `ShuttingDown`, `Stopped`. -/
def rank : ServiceState ε → Nat
  | .starting => 0
  | .running => 1
  | .shuttingDown _ => 2
  | .stopped _ _ => 3

/-- The shutdown reason that the state tells. -/
def reason? : ServiceState ε → Option (Option (Reason ε))
  | .starting => none
  | .running => none
  | .shuttingDown r => some r
  | .stopped r _ => some r

/-- `b` may be seen after `a`: the state has not gone back, the reason it has told stays, and a
stopped service stays as it is. -/
structure Forward (a b : ServiceState ε) : Prop where
  rank_le : a.rank ≤ b.rank
  reason_kept : ∀ r : Option (Reason ε), a.reason? = some r → b.reason? = some r
  stopped_kept : a.rank = 3 → b = a

end ServiceState

/-- The attributes of `ServiceLifetime` that its state depends on, and whether its scope is
cancelled. -/
structure ServiceLifetime (ε : Type) where
  started : Bool
  shuttingDown : Bool
  stopped : Bool
  shutdownReason : Option (Reason ε)
  exception : Option (Exc ε)
  cancelCalled : Bool

/-- One assignment to the lifetime, or one `set()` of an event. -/
inductive Write (ε : Type) where
  | started
  | shuttingDown
  | stopped
  | shutdownReason (r : Option (Reason ε))
  | exception (e : Exc ε)
  | cancelScope

/-- `AssertionError` of a lifetime method, `RuntimeError` of a portal that is not running. -/
inductive CallError where
  | assertion (message : String)
  | portalNotRunning
  deriving DecidableEq, Repr

/-- The methods other code calls on a lifetime. -/
inductive Call (ε : Type) where
  | setStarted
  | setShuttingDown (reason : Option (Reason ε))
  | shutdown (reason : Option (Reason ε))
  | stop

/-- How the `async with lt.scope` block of `_run` is left: by its end, by the cancellation, by an
`Exception`, by another `BaseException`. -/
inductive Outcome (ε : Type) where
  | returned
  | cancelled (exc : Exc ε)
  | failed (exc : Exc ε)
  | escaped (exc : Exc ε)

namespace ServiceLifetime

variable {ε : Type}

/-- A new lifetime. -/
def fresh : ServiceLifetime ε := ⟨false, false, false, none, none, false⟩

/-- The property `state`, read at one moment. -/
def state (lt : ServiceLifetime ε) : ServiceState ε :=
  if lt.stopped then .stopped lt.shutdownReason lt.exception
  else if lt.shuttingDown then .shuttingDown lt.shutdownReason
  else if lt.started then .running
  else .starting

/-- The lifetime after one assignment. -/
def assign (lt : ServiceLifetime ε) : Write ε → ServiceLifetime ε
  | .started => { lt with started := true }
  | .shuttingDown => { lt with shuttingDown := true }
  | .stopped => { lt with stopped := true }
  | .shutdownReason r => { lt with shutdownReason := r }
  | .exception e => { lt with exception := some e }
  | .cancelScope => { lt with cancelCalled := true }

/-- `do_set` of `set_started`. -/
def doSetStarted (lt : ServiceLifetime ε) : Except CallError (List (Write ε)) :=
  if lt.stopped then .error (.assertion "Cannot mark already stopped service as started")
  else .ok [.started]

/-- `do_set` of `set_shutting_down`. -/
def doSetShuttingDown (lt : ServiceLifetime ε) (reason : Option (Reason ε)) :
    Except CallError (List (Write ε)) :=
  if lt.stopped then .error (.assertion "Cannot mark already stopped service as started")
  else if lt.shuttingDown then .ok []
  else .ok [.shutdownReason reason, .shuttingDown]

/-- `do_shutdown`. -/
def doShutdown (lt : ServiceLifetime ε) (reason : Option (Reason ε)) : List (Write ε) :=
  if lt.stopped || lt.shuttingDown then [] else [.shutdownReason reason, .shuttingDown]

/-- What the loop has to do for a call. -/
def body (lt : ServiceLifetime ε) : Call ε → Except CallError (List (Write ε))
  | .setStarted => lt.doSetStarted
  | .setShuttingDown reason => lt.doSetShuttingDown reason
  | .shutdown reason => .ok (lt.doShutdown reason)
  | .stop => .ok [.cancelScope]

/-- `Portal.run_sync`: on the loop thread the call is direct, from another thread it needs a running
portal. -/
def runSync (lt : ServiceLifetime ε) (portalRunning sameThread : Bool) (c : Call ε) :
    Except CallError (List (Write ε)) :=
  if sameThread || portalRunning then lt.body c else .error .portalNotRunning

end ServiceLifetime

/-- The `except` clauses and the `finally` of `_run`. -/
def ending {ε : Type} : Outcome ε → List (Write ε)
  | .returned => [.stopped]
  | .cancelled exc => [.exception exc, .stopped]
  | .failed exc => [.exception (unwrapExc exc), .stopped]
  | .escaped _ => [.stopped]

/-- Where an observer stands in the property `state`. -/
inductive Reading (ε : Type) where
  | idle
  | notStopped
  | notShuttingDown
  | inStopped
  | inStoppedWith (reason : Option (Reason ε))
  | inShuttingDown

/-- A service under observation. `todo` holds the assignments that the loop has still to make in the
call it executes. No step reads `seen`, `requests` and `reasonsSet`: they are what each observer has
been told, the reasons of the shutdown requests that the loop took up before the service had
stopped, and the values the shutdown reason was assigned. -/
structure Watched (ε ι : Type) where
  lt : ServiceLifetime ε
  todo : List (Write ε)
  finished : Bool
  portalRunning : Bool
  reading : ι → Reading ε
  seen : ι → List (ServiceState ε)
  requests : List (Option (Reason ε))
  reasonsSet : List (Option (Reason ε))

/-- What can happen: a call arrives at the loop, `_run` completes, the loop makes its next
assignment, the portal stops, an observer reads one attribute. -/
inductive Event (ε ι : Type) where
  | call (c : Call ε) (sameThread : Bool)
  | complete (o : Outcome ε)
  | write
  | portalStops
  | read (i : ι)

/-- The reason of a call that asks for the shutdown. -/
def Call.request? {ε : Type} : Call ε → Option (Option (Reason ε))
  | .setShuttingDown reason => some reason
  | .shutdown reason => some reason
  | _ => none

/-- The value that an assignment gives to the shutdown reason. -/
def Write.reason? {ε : Type} : Write ε → Option (Option (Reason ε))
  | .shutdownReason r => some r
  | _ => none

/-- One attribute access in the property `state`: where the observer stands next, and what it
returns when it is through. -/
def ServiceLifetime.look {ε : Type} (lt : ServiceLifetime ε) :
    Reading ε → Reading ε × Option (ServiceState ε)
  | .idle => (if lt.stopped then .inStopped else .notStopped, none)
  | .inStopped => (.inStoppedWith lt.shutdownReason, none)
  | .inStoppedWith reason => (.idle, some (.stopped reason lt.exception))
  | .notStopped => (if lt.shuttingDown then .inShuttingDown else .notShuttingDown, none)
  | .inShuttingDown => (.idle, some (.shuttingDown lt.shutdownReason))
  | .notShuttingDown => (.idle, some (if lt.started then .running else .starting))

namespace Watched

variable {ε ι : Type} [DecidableEq ι]

/-- One step. The loop takes up a call, or the end of `_run`, when it has finished what it was
doing. -/
def step (s : Watched ε ι) : Event ε ι → Option (Watched ε ι)
  | .call c sameThread =>
    if s.todo.isEmpty then
      match s.lt.runSync s.portalRunning sameThread c with
      | .error _ => some s
      | .ok ws =>
        some { s with
          todo := ws
          requests := if s.lt.stopped then s.requests else s.requests ++ c.request?.toList }
    else none
  | .complete o =>
    if s.todo.isEmpty && !s.finished then some { s with todo := ending o, finished := true }
    else none
  | .write =>
    match s.todo with
    | [] => none
    | w :: ws =>
      some { s with
        lt := s.lt.assign w, todo := ws, reasonsSet := s.reasonsSet ++ w.reason?.toList }
  | .portalStops => some { s with portalRunning := false }
  | .read i =>
    some { s with
      reading := Function.update s.reading i (s.lt.look (s.reading i)).1
      seen := Function.update s.seen i (s.seen i ++ (s.lt.look (s.reading i)).2.toList) }

/-- A service that has just been created, with its `_run` under way. -/
def initial : Watched ε ι :=
  ⟨.fresh, [], false, true, fun _ => .idle, fun _ => [], [], []⟩

/-- The service as a transition system. -/
def lts : Lts (Watched ε ι) (Event ε ι) := ⟨(· = initial), step⟩

end Watched

/-! ## What one assignment may change -/

namespace ServiceState

variable {ε : Type}

theorem Forward.refl (a : ServiceState ε) : Forward a a :=
  ⟨Nat.le_refl _, fun _ h => h, fun _ => rfl⟩

theorem Forward.trans {a b c : ServiceState ε} (hab : Forward a b) (hbc : Forward b c) :
    Forward a c where
  rank_le := Nat.le_trans hab.rank_le hbc.rank_le
  reason_kept r h := hbc.reason_kept r (hab.reason_kept r h)
  stopped_kept h := by
    have hb : b = a := hab.stopped_kept h
    have hc : c = b := hbc.stopped_kept (by rw [hb]; exact h)
    rw [hc, hb]

/-- Only a state from `ShuttingDown` on tells a reason. -/
theorem reason?_of_rank_le {a : ServiceState ε} (h : a.rank ≤ 1) : a.reason? = none := by
  cases a with
  | starting => rfl
  | running => rfl
  | shuttingDown r => exact absurd h (by simp [rank])
  | stopped r e => exact absurd h (by simp [rank])

/-- A state that tells no reason may be followed by every state of at least its rank. -/
theorem Forward.of_early {a b : ServiceState ε} (ha : a.rank ≤ 1) (hab : a.rank ≤ b.rank) :
    Forward a b where
  rank_le := hab
  reason_kept r h := by
    rw [reason?_of_rank_le ha] at h
    cases h
  stopped_kept h := by omega

end ServiceState

namespace ServiceLifetime

variable {ε : Type}

open ServiceState (Forward)

/-- `b` is a later value of the lifetime `a`: events stay set, the reason is final once the service
is shutting down, and with it the exception once the service has stopped. -/
structure Advances (a b : ServiceLifetime ε) : Prop where
  started : a.started = true → b.started = true
  shuttingDown : a.shuttingDown = true → b.shuttingDown = true ∧ b.shutdownReason = a.shutdownReason
  stopped : a.stopped = true →
    b.stopped = true ∧ b.shutdownReason = a.shutdownReason ∧ b.exception = a.exception

theorem Advances.refl (a : ServiceLifetime ε) : Advances a a :=
  ⟨fun h => h, fun h => ⟨h, rfl⟩, fun h => ⟨h, rfl, rfl⟩⟩

/-- Two advances are one. -/
theorem Advances.trans {a b c : ServiceLifetime ε} (hab : Advances a b) (hbc : Advances b c) :
    Advances a c where
  started h := hbc.started (hab.started h)
  shuttingDown h := by
    obtain ⟨hb, hreason⟩ := hab.shuttingDown h
    obtain ⟨hc, hreason'⟩ := hbc.shuttingDown hb
    exact ⟨hc, hreason'.trans hreason⟩
  stopped h := by
    obtain ⟨hb, hreason, hexc⟩ := hab.stopped h
    obtain ⟨hc, hreason', hexc'⟩ := hbc.stopped hb
    exact ⟨hc, hreason'.trans hreason, hexc'.trans hexc⟩

theorem state_of_stopped {lt : ServiceLifetime ε} (h : lt.stopped = true) :
    lt.state = .stopped lt.shutdownReason lt.exception := by
  simp [state, h]

theorem reason?_of_shuttingDown {lt : ServiceLifetime ε} (h : lt.shuttingDown = true) :
    lt.state.reason? = some lt.shutdownReason := by
  cases hstopped : lt.stopped <;> simp [state, ServiceState.reason?, h, hstopped]

theorem two_le_rank_of_shuttingDown {lt : ServiceLifetime ε} (h : lt.shuttingDown = true) :
    2 ≤ lt.state.rank := by
  cases hstopped : lt.stopped <;> simp [state, ServiceState.rank, h, hstopped]

theorem one_le_rank_of_started {lt : ServiceLifetime ε} (h : lt.started = true) :
    1 ≤ lt.state.rank := by
  cases hstopped : lt.stopped <;> cases hdown : lt.shuttingDown <;>
    simp [state, ServiceState.rank, h, hstopped, hdown]

/-- A lifetime that only advances is in a state that only moves forward. -/
theorem Advances.forward {a b : ServiceLifetime ε} (h : Advances a b) :
    Forward a.state b.state := by
  -- the attributes are looked at in the order in which `state` reads them
  cases hstopped : a.stopped with
  | true =>
    obtain ⟨hb, hreason, hexc⟩ := h.stopped hstopped
    rw [state_of_stopped hb, hreason, hexc, ← state_of_stopped hstopped]
    exact .refl _
  | false =>
    cases hdown : a.shuttingDown with
    | true =>
      have ha : a.state = .shuttingDown a.shutdownReason := by simp [state, hstopped, hdown]
      obtain ⟨hb, hreason⟩ := h.shuttingDown hdown
      rw [ha]
      refine ⟨two_le_rank_of_shuttingDown hb, ?_, fun hrank => ?_⟩
      rotate_left
      · simp [ServiceState.rank] at hrank
      intro r hr
      rw [reason?_of_shuttingDown hb, hreason]
      exact hr
    | false =>
      cases hstarted : a.started with
      | true =>
        have ha : a.state = .running := by simp [state, hstopped, hdown, hstarted]
        rw [ha]
        exact .of_early (Nat.le_refl _) (one_le_rank_of_started (h.started hstarted))
      | false =>
        have ha : a.state = .starting := by simp [state, hstopped, hdown, hstarted]
        rw [ha]
        exact .of_early (Nat.zero_le _) (Nat.zero_le _)

end ServiceLifetime

namespace Watched

variable {ε ι : Type}

open ServiceState (Forward)
open ServiceLifetime (Advances)

/-- Between two calls the log of the requests explains the attributes. -/
structure Settled (s : Watched ε ι) : Prop where
  shuttingDown : s.lt.shuttingDown = true ↔ s.requests ≠ []
  reasonsSet : s.reasonsSet = s.requests.take 1
  shutdownReason : s.lt.shutdownReason = s.requests.head?.join

/-- The assignments that may still be due, and what holds of the service before they are made. -/
inductive Block (s : Watched ε ι) : List (Write ε) → Prop
  | none : s.finished = s.lt.stopped → Settled s → Block s []
  | start : s.lt.stopped = false → s.finished = false → Settled s → Block s [.started]
  | scope : s.finished = s.lt.stopped → Settled s → Block s [.cancelScope]
  | request (r : Option (Reason ε)) : s.lt.stopped = false → s.finished = false →
      s.lt.shuttingDown = false → s.requests = [r] → s.reasonsSet = [] →
      Block s [.shutdownReason r, .shuttingDown]
  | announce : s.lt.stopped = false → s.finished = false → s.lt.shuttingDown = false →
      s.requests = [s.lt.shutdownReason] → s.reasonsSet = [s.lt.shutdownReason] →
      Block s [.shuttingDown]
  | record (e : Exc ε) : s.lt.stopped = false → s.finished = true → Settled s →
      Block s [.exception e, .stopped]
  | stop : s.lt.stopped = false → s.finished = true → Settled s → Block s [.stopped]

/-- The service is at what an observer has said or beyond it, and the events this rests on are
set. -/
structure Behind (lt : ServiceLifetime ε) (a : ServiceState ε) : Prop where
  forward : Forward a lt.state
  started : a.rank = 1 → lt.started = true
  shuttingDown : a.rank = 2 → lt.shuttingDown = true

/-- What an observer in the middle of `state` still has to say follows what it has said. -/
def Fits (lt : ServiceLifetime ε) (seen : List (ServiceState ε)) : Reading ε → Prop
  | .idle => True
  | .notStopped => ∀ a ∈ seen, a.rank ≤ 2
  | .notShuttingDown => ∀ a ∈ seen, a.rank ≤ 1
  | .inStopped => lt.stopped = true
  | .inStoppedWith r => lt.stopped = true ∧ r = lt.shutdownReason
  | .inShuttingDown => lt.shuttingDown = true ∧ ∀ a ∈ seen, a.rank ≤ 2

/-- The invariant: the assignments that are due, and where every observer stands. -/
structure Inv (s : Watched ε ι) : Prop where
  block : Block s s.todo
  behind : ∀ i : ι, ∀ a ∈ s.seen i, Behind s.lt a
  ordered : ∀ i : ι, (s.seen i).Pairwise Forward
  fits : ∀ i : ι, Fits s.lt (s.seen i) (s.reading i)

/-! ## One step keeps the invariant -/

/-- Between calls, only the service and the log of the requests count. -/
theorem Settled.congr {s t : Watched ε ι} (h : Settled s) (hlt : t.lt = s.lt)
    (hrequests : t.requests = s.requests) (hset : t.reasonsSet = s.reasonsSet) : Settled t where
  shuttingDown := by
    rw [hlt, hrequests]
    exact h.shuttingDown
  reasonsSet := by
    rw [hset, hrequests]
    exact h.reasonsSet
  shutdownReason := by
    rw [hlt, hrequests]
    exact h.shutdownReason

/-- For what is due, only the service and the log of the requests count. -/
theorem Block.congr {s t : Watched ε ι} {ws : List (Write ε)} (h : Block s ws) (hlt : t.lt = s.lt)
    (hfin : t.finished = s.finished) (hrequests : t.requests = s.requests)
    (hset : t.reasonsSet = s.reasonsSet) : Block t ws := by
  have hsettled : Settled s → Settled t := fun hs => hs.congr hlt hrequests hset
  cases h with
  | none hfinished hs => exact .none (by rw [hlt, hfin]; exact hfinished) (hsettled hs)
  | scope hfinished hs => exact .scope (by rw [hlt, hfin]; exact hfinished) (hsettled hs)
  | start hstopped hfinished hs =>
    exact .start (hlt ▸ hstopped) (hfin.trans hfinished) (hsettled hs)
  | record e hstopped hfinished hs =>
    exact .record e (hlt ▸ hstopped) (hfin.trans hfinished) (hsettled hs)
  | stop hstopped hfinished hs => exact .stop (hlt ▸ hstopped) (hfin.trans hfinished) (hsettled hs)
  | request r hstopped hfinished hdown hreq hnone =>
    exact .request r (hlt ▸ hstopped) (hfin.trans hfinished) (hlt ▸ hdown) (hrequests.trans hreq)
      (hset.trans hnone)
  | announce hstopped hfinished hdown hreq hnone =>
    refine .announce (hlt ▸ hstopped) (hfin.trans hfinished) (hlt ▸ hdown) ?_ ?_
    · rw [hlt]
      exact hrequests.trans hreq
    · rw [hlt]
      exact hset.trans hnone

/-- A write of a block moves the state forward. -/
theorem assign_advances {s : Watched ε ι} {w : Write ε} {ws : List (Write ε)}
    (h : Block s (w :: ws)) : Advances s.lt (s.lt.assign w) := by
  cases h with
  | start _ _ _ => exact ⟨fun _ => rfl, fun h => ⟨h, rfl⟩, fun h => ⟨h, rfl, rfl⟩⟩
  | scope _ _ => exact ⟨fun h => h, fun h => ⟨h, rfl⟩, fun h => ⟨h, rfl, rfl⟩⟩
  -- the reason is assigned only while neither event is set
  | request r hstopped _ hdown _ _ =>
    refine ⟨fun h => h, fun h => ?_, fun h => ?_⟩
    · rw [hdown] at h; cases h
    · rw [hstopped] at h; cases h
  | announce hstopped _ hdown _ _ =>
    refine ⟨fun h => h, fun h => ?_, fun h => ⟨h, rfl, rfl⟩⟩
    rw [hdown] at h; cases h
  -- the exception is assigned only before the service has stopped
  | record e hstopped _ _ =>
    refine ⟨fun h => h, fun h => ⟨h, rfl⟩, fun h => ?_⟩
    rw [hstopped] at h; cases h
  | stop hstopped _ _ =>
    refine ⟨fun h => h, fun h => ⟨h, rfl⟩, fun h => ?_⟩
    rw [hstopped] at h; cases h

/-- The log after an assignment that does not touch the reason. -/
theorem Settled.write {s : Watched ε ι} (hs : Settled s) (w : Write ε) (ws : List (Write ε))
    (hdown : (s.lt.assign w).shuttingDown = s.lt.shuttingDown)
    (hreason : (s.lt.assign w).shutdownReason = s.lt.shutdownReason) (hw : w.reason? = none) :
    Settled { s with
      lt := s.lt.assign w, todo := ws, reasonsSet := s.reasonsSet ++ w.reason?.toList } where
  shuttingDown := by
    rw [hdown]
    exact hs.shuttingDown
  reasonsSet := by
    rw [hw]
    exact (List.append_nil _).trans hs.reasonsSet
  shutdownReason := hreason.trans hs.shutdownReason

/-- The rest of a block is a block of the state after its first write. -/
theorem block_write {s : Watched ε ι} {w : Write ε} {ws : List (Write ε)}
    (h : Block s (w :: ws)) :
    Block { s with
      lt := s.lt.assign w, todo := ws, reasonsSet := s.reasonsSet ++ w.reason?.toList } ws := by
  cases h with
  | start hstopped hfinished hs =>
    exact .none (hfinished.trans hstopped.symm) (hs.write _ _ rfl rfl rfl)
  | scope hfinished hs => exact .none hfinished (hs.write _ _ rfl rfl rfl)
  | request r hstopped hfinished hdown hrequests hset =>
    refine .announce hstopped hfinished hdown hrequests ?_
    simp [Write.reason?, ServiceLifetime.assign, hset]
  | announce hstopped hfinished hdown hrequests hset =>
    refine .none (hfinished.trans hstopped.symm) ⟨?_, ?_, ?_⟩
    · simp [ServiceLifetime.assign, hrequests]
    · simp [Write.reason?, hset, hrequests]
    · simp [ServiceLifetime.assign, hrequests]
  | record e hstopped hfinished hs => exact .stop hstopped hfinished (hs.write _ _ rfl rfl rfl)
  | stop hstopped hfinished hs => exact .none hfinished (hs.write _ _ rfl rfl rfl)

/-- A further request is logged and changes nothing. -/
theorem Settled.request {s : Watched ε ι} (hs : Settled s) (h : s.lt.shuttingDown = true)
    (r : Option (Reason ε)) :
    Settled { s with todo := [], requests := s.requests ++ [r] } := by
  have hne : s.requests ≠ [] := hs.shuttingDown.1 h
  obtain ⟨first, rest, hrequests⟩ := List.exists_cons_of_ne_nil hne
  refine ⟨?_, ?_, ?_⟩
  · simp [h]
  · rw [hs.reasonsSet, hrequests]; rfl
  · rw [hs.shutdownReason, hrequests]; rfl

/-- The two ways of asking for the shutdown, in a service that has not stopped. -/
theorem block_request {s : Watched ε ι} (hstopped : s.lt.stopped = false)
    (hfinished : s.finished = false) (hs : Settled s) (r : Option (Reason ε)) :
    Block { s with
      todo := if s.lt.shuttingDown then [] else [.shutdownReason r, .shuttingDown]
      requests := s.requests ++ [r] }
      (if s.lt.shuttingDown then [] else [.shutdownReason r, .shuttingDown]) := by
  cases hdown : s.lt.shuttingDown with
  | true => exact .none (hfinished.trans hstopped.symm) (hs.request hdown r)
  | false =>
    have hnone : s.requests = [] := by
      by_contra hne
      rw [hs.shuttingDown.2 hne] at hdown
      cases hdown
    refine .request r hstopped hfinished hdown ?_ ?_
    · simp [hnone]
    · simpa [hnone] using hs.reasonsSet

/-- A call begins a block. -/
theorem block_call {s : Watched ε ι} {c : Call ε} {ws : List (Write ε)} (h : Block s [])
    (hbody : s.lt.body c = .ok ws) :
    Block { s with
      todo := ws
      requests := if s.lt.stopped then s.requests else s.requests ++ c.request?.toList } ws := by
  cases h with
  | none hfinished hs =>
  cases hstopped : s.lt.stopped with
  | true =>
    -- after the stop a call raises, assigns nothing or cancels the scope
    have hlog : ∀ ws' : List (Write ε), Settled { s with todo := ws', requests := s.requests } :=
      fun _ => hs.congr rfl rfl rfl
    cases c with
    | setStarted => simp [ServiceLifetime.body, ServiceLifetime.doSetStarted, hstopped] at hbody
    | setShuttingDown r =>
      simp [ServiceLifetime.body, ServiceLifetime.doSetShuttingDown, hstopped] at hbody
    | shutdown r =>
      simp [ServiceLifetime.body, ServiceLifetime.doShutdown, hstopped] at hbody
      subst hbody
      exact .none hfinished (hlog [])
    | stop =>
      cases hbody
      exact .scope hfinished (hlog _)
  | false =>
    rw [hstopped] at hfinished
    have hlog : ∀ ws' : List (Write ε),
        Settled { s with todo := ws', requests := s.requests ++ [] } :=
      fun _ => hs.congr rfl (List.append_nil _) rfl
    cases c with
    | setStarted =>
      simp [ServiceLifetime.body, ServiceLifetime.doSetStarted, hstopped] at hbody
      subst hbody
      exact .start hstopped hfinished (hlog _)
    | setShuttingDown r =>
      have hws : ws = if s.lt.shuttingDown then [] else [.shutdownReason r, .shuttingDown] := by
        cases hdown : s.lt.shuttingDown <;>
          simp [ServiceLifetime.body, ServiceLifetime.doSetShuttingDown,
            hstopped, hdown] at hbody <;>
          simp [hbody]
      rw [hws]
      exact block_request hstopped hfinished hs r
    | shutdown r =>
      have hws : ws = if s.lt.shuttingDown then [] else [.shutdownReason r, .shuttingDown] := by
        cases hdown : s.lt.shuttingDown <;>
          simp [ServiceLifetime.body, ServiceLifetime.doShutdown, hstopped, hdown] at hbody <;>
          simp [hbody]
      rw [hws]
      exact block_request hstopped hfinished hs r
    | stop =>
      cases hbody
      exact .scope (hfinished.trans hstopped.symm) (hlog _)

/-- The end of the service begins its last block. -/
theorem block_complete {s : Watched ε ι} (h : Block s []) (hfinished : s.finished = false)
    (o : Outcome ε) : Block { s with todo := ending o, finished := true } (ending o) := by
  cases h with
  | none hstopped hs =>
  rw [hfinished] at hstopped
  have hlog : Settled { s with todo := ending o, finished := true } := hs.congr rfl rfl rfl
  cases o with
  | returned => exact .stop hstopped.symm rfl hlog
  | cancelled exc => exact .record exc hstopped.symm rfl hlog
  | failed exc => exact .record (unwrapExc exc) hstopped.symm rfl hlog
  | escaped exc => exact .stop hstopped.symm rfl hlog

/-- What an observer has still to say fits every later state. -/
theorem Fits.advance {a b : ServiceLifetime ε} {seen : List (ServiceState ε)} {r : Reading ε}
    (h : Fits a seen r) (hab : Advances a b) : Fits b seen r := by
  cases r with
  | idle => trivial
  | notStopped => exact h
  | notShuttingDown => exact h
  | inStopped => exact (hab.stopped h).1
  | inStoppedWith reason =>
    obtain ⟨hb, hreason, -⟩ := hab.stopped h.1
    exact ⟨hb, h.2.trans hreason.symm⟩
  | inShuttingDown => exact ⟨(hab.shuttingDown h.1).1, h.2⟩

theorem Behind.advance {a b : ServiceLifetime ε} {x : ServiceState ε} (h : Behind a x)
    (hab : Advances a b) : Behind b x where
  forward := h.forward.trans hab.forward
  started h1 := hab.started (h.started h1)
  shuttingDown h2 := (hab.shuttingDown (h.shuttingDown h2)).1

/-- What an observer says when it is through is still behind the service. -/
theorem Fits.behind {lt : ServiceLifetime ε} {seen : List (ServiceState ε)} {r : Reading ε}
    (h : Fits lt seen r) {b : ServiceState ε} (hb : (lt.look r).2 = some b) : Behind lt b := by
  cases r with
  | idle => cases hb
  | notStopped => cases hb
  | inStopped => cases hb
  -- the last state names the reason, which is written before `stopped`
  | inStoppedWith reason =>
    cases hb
    obtain ⟨hstopped, rfl⟩ := h
    refine ⟨?_, fun h1 => ?_, fun h2 => ?_⟩
    · rw [← ServiceLifetime.state_of_stopped hstopped]
      exact .refl _
    · cases h1
    · cases h2
  | inShuttingDown =>
    cases hb
    -- `reason` is set with `shutting_down`, so no later read finds another one
    obtain ⟨hdown, -⟩ := h
    refine ⟨⟨ServiceLifetime.two_le_rank_of_shuttingDown hdown, ?_, ?_⟩, ?_, fun _ => hdown⟩
    · exact fun r hr => (ServiceLifetime.reason?_of_shuttingDown hdown).trans hr
    · exact fun h3 => by cases h3
    · exact fun h1 => by cases h1
  -- the early states name no reason, and only `started` tells them apart
  | notShuttingDown =>
    cases hstarted : lt.started with
    | true =>
      simp only [ServiceLifetime.look, hstarted, Option.some.injEq, if_true] at hb
      subst hb
      refine ⟨?_, fun _ => hstarted, fun h2 => by cases h2⟩
      exact .of_early (Nat.le_refl _) (ServiceLifetime.one_le_rank_of_started hstarted)
    | false =>
      simp [ServiceLifetime.look, hstarted] at hb
      subst hb
      refine ⟨.of_early (Nat.zero_le _) (Nat.zero_le _), ?_, ?_⟩
      · exact fun h1 => by cases h1
      · exact fun h2 => by cases h2

/-- What an observer says when it is through follows what it has said before. -/
theorem Fits.follows {lt : ServiceLifetime ε} {seen : List (ServiceState ε)} {r : Reading ε}
    (h : Fits lt seen r) (hbehind : ∀ a ∈ seen, Behind lt a) {b : ServiceState ε}
    (hb : (lt.look r).2 = some b) : ∀ a ∈ seen, Forward a b := by
  intro a ha
  have hab := hbehind a ha
  cases r with
  | idle => cases hb
  | notStopped => cases hb
  | inStopped => cases hb
  | inStoppedWith reason =>
    cases hb
    obtain ⟨hstopped, rfl⟩ := h
    rw [← ServiceLifetime.state_of_stopped hstopped]
    exact hab.forward
  | inShuttingDown =>
    cases hb
    obtain ⟨hdown, hrank⟩ := h
    have h2 : a.rank ≤ 2 := hrank a ha
    refine ⟨h2, fun r hr => ?_, fun h3 => by omega⟩
    exact (ServiceLifetime.reason?_of_shuttingDown hdown).symm.trans (hab.forward.reason_kept r hr)
  | notShuttingDown =>
    have h1 : a.rank ≤ 1 := h a ha
    refine .of_early h1 ?_
    cases hstarted : lt.started with
    | true =>
      simp only [ServiceLifetime.look, hstarted, Option.some.injEq, if_true] at hb
      rw [← hb]
      exact h1
    | false =>
      -- an observer that has said `Running` would find `started` set
      have hne : a.rank ≠ 1 := fun h1 => by
        rw [hab.started h1] at hstarted
        cases hstarted
      rw [show a.rank = 0 by omega]
      exact Nat.zero_le _

/-- One attribute access: where the observer stands next fits what it has said by then. -/
theorem Fits.look {lt : ServiceLifetime ε} {seen : List (ServiceState ε)} {r : Reading ε}
    (h : Fits lt seen r) (hbehind : ∀ a ∈ seen, Behind lt a) :
    Fits lt (seen ++ (lt.look r).2.toList) (lt.look r).1 := by
  cases r with
  | idle =>
    cases hstopped : lt.stopped with
    | true => simp [ServiceLifetime.look, hstopped, Fits]
    | false =>
      have hrank : lt.state.rank ≤ 2 := by
        cases hdown : lt.shuttingDown <;> cases hstarted : lt.started <;>
          simp [ServiceLifetime.state, ServiceState.rank, hstopped, hdown, hstarted]
      simp only [ServiceLifetime.look, hstopped, Fits]
      intro a ha
      have hmem : a ∈ seen := by simpa using ha
      exact Nat.le_trans (hbehind a hmem).forward.rank_le hrank
  | inStopped => exact ⟨h, rfl⟩
  | inStoppedWith reason => trivial
  | inShuttingDown => trivial
  | notShuttingDown => trivial
  | notStopped =>
    cases hdown : lt.shuttingDown with
    | true => simpa [ServiceLifetime.look, hdown, Fits] using h
    | false =>
      simp only [ServiceLifetime.look, hdown, Fits]
      intro a ha
      have hmem : a ∈ seen := by simpa using ha
      have h2 : a.rank ≤ 2 := h a hmem
      -- an observer that has said `ShuttingDown` would find `shutting_down` set
      have hne : a.rank ≠ 2 := fun h2 => by
        rw [(hbehind a hmem).shuttingDown h2] at hdown
        cases hdown
      omega

/-! ## Every run keeps the invariant -/

/-- The values that the reason was given: none, or that of the first request. -/
theorem Block.reasonsSet_prefix {s : Watched ε ι} {ws : List (Write ε)} (h : Block s ws) :
    s.reasonsSet.length ≤ 1 ∧ s.reasonsSet <+: s.requests := by
  have hsettled : Settled s → s.reasonsSet.length ≤ 1 ∧ s.reasonsSet <+: s.requests := by
    intro hs
    rw [hs.reasonsSet]
    exact ⟨List.length_take_le 1 _, List.take_prefix 1 _⟩
  cases h with
  | none _ hs => exact hsettled hs
  | start _ _ hs => exact hsettled hs
  | scope _ hs => exact hsettled hs
  | record _ _ _ hs => exact hsettled hs
  | stop _ _ hs => exact hsettled hs
  | request r _ _ _ _ hnone =>
    rw [hnone]
    exact ⟨Nat.zero_le _, List.nil_prefix⟩
  | announce _ _ _ hrequests hset =>
    rw [hset, hrequests]
    exact ⟨Nat.le_refl _, List.prefix_refl _⟩

theorem inv_initial : Inv (initial : Watched ε ι) where
  block := .none rfl ⟨by simp [initial, ServiceLifetime.fresh], rfl, rfl⟩
  behind i a ha := by cases ha
  ordered i := List.Pairwise.nil
  fits i := trivial

/-- A step that reads nothing keeps what is known of the observers. -/
theorem Inv.moved {s t : Watched ε ι} (h : Inv s) (hblock : Block t t.todo)
    (hlt : Advances s.lt t.lt) (hseen : t.seen = s.seen) (hreading : t.reading = s.reading) :
    Inv t where
  block := hblock
  behind i a ha := by
    rw [hseen] at ha
    exact (h.behind i a ha).advance hlt
  ordered i := by
    rw [hseen]
    exact h.ordered i
  fits i := by
    rw [hseen, hreading]
    exact (h.fits i).advance hlt

variable [DecidableEq ι]

/-- What one step can do. -/
theorem step_cases {s t : Watched ε ι} {e : Event ε ι} (h : s.step e = some t) :
    t = s ∨
    (∃ c ws, s.todo = [] ∧ s.lt.body c = .ok ws ∧
      t = { s with
        todo := ws
        requests := if s.lt.stopped then s.requests else s.requests ++ c.request?.toList }) ∨
    (∃ o, s.todo = [] ∧ s.finished = false ∧ t = { s with todo := ending o, finished := true }) ∨
    (∃ w ws, s.todo = w :: ws ∧
      t = { s with
        lt := s.lt.assign w, todo := ws, reasonsSet := s.reasonsSet ++ w.reason?.toList }) ∨
    t = { s with portalRunning := false } ∨
    (∃ i, t = { s with
      reading := Function.update s.reading i (s.lt.look (s.reading i)).1
      seen := Function.update s.seen i (s.seen i ++ (s.lt.look (s.reading i)).2.toList) }) := by
  cases e with
  | call c sameThread =>
    simp only [step] at h
    split at h
    · rename_i hidle
      split at h
      -- a call that is refused changes nothing
      · exact .inl (Option.some.inj h).symm
      · rename_i ws hws
        -- what runs in the portal, or at once on the loop's thread, is the same body
        have hbody : s.lt.body c = .ok ws := by
          rw [ServiceLifetime.runSync] at hws
          split at hws
          · exact hws
          · cases hws
        exact .inr (.inl ⟨c, ws, List.isEmpty_iff.1 hidle, hbody, (Option.some.inj h).symm⟩)
    · cases h
  | complete o =>
    simp only [step] at h
    split at h
    · rename_i hidle
      simp only [Bool.and_eq_true, List.isEmpty_iff, Bool.not_eq_true'] at hidle
      exact .inr (.inr (.inl ⟨o, hidle.1, hidle.2, (Option.some.inj h).symm⟩))
    · cases h
  | write =>
    simp only [step] at h
    split at h
    · cases h
    · rename_i w ws htodo
      exact .inr (.inr (.inr (.inl ⟨w, ws, htodo, (Option.some.inj h).symm⟩)))
  | portalStops => exact .inr (.inr (.inr (.inr (.inl (Option.some.inj h).symm))))
  | read i => exact .inr (.inr (.inr (.inr (.inr ⟨i, (Option.some.inj h).symm⟩))))

/-- A look by an observer keeps the invariant. -/
theorem Inv.read {s : Watched ε ι} (h : Inv s) (i : ι) :
    Inv { s with
      reading := Function.update s.reading i (s.lt.look (s.reading i)).1
      seen := Function.update s.seen i (s.seen i ++ (s.lt.look (s.reading i)).2.toList) } where
  block := h.block.congr rfl rfl rfl rfl
  -- only observer `i` has read: what it has seen is behind the lifetime as it is now
  behind j a ha := by
    by_cases hj : j = i
    · subst hj
      simp only [Function.update_self, List.mem_append, Option.mem_toList] at ha
      rcases ha with ha | ha
      · exact h.behind j a ha
      · exact (h.fits j).behind ha
    · simp only [Function.update_of_ne hj] at ha
      exact h.behind j a ha
  ordered j := by
    by_cases hj : j = i
    · subst hj
      simp only [Function.update_self]
      -- the new state is compared with all that `i` has seen before
      refine List.pairwise_append.2 ⟨h.ordered j, ?_, fun a ha b hb => ?_⟩
      · cases (s.lt.look (s.reading j)).2 with
        | none => exact List.Pairwise.nil
        | some b => exact List.pairwise_singleton _ b
      · exact (h.fits j).follows (h.behind j) (Option.mem_toList.1 hb) a ha
    · simp only [Function.update_of_ne hj]
      exact h.ordered j
  fits j := by
    by_cases hj : j = i
    · subst hj
      simp only [Function.update_self]
      exact (h.fits j).look (h.behind j)
    · simp only [Function.update_of_ne hj]
      exact h.fits j

/-- Every step keeps the invariant and moves the state forward. -/
theorem step_advances {s t : Watched ε ι} (h : Inv s) {e : Event ε ι} (hstep : s.step e = some t) :
    Inv t ∧ Advances s.lt t.lt := by
  rcases step_cases hstep with rfl | ⟨c, ws, htodo, hbody, rfl⟩ | ⟨o, htodo, hfinished, rfl⟩ |
    ⟨w, ws, htodo, rfl⟩ | rfl | ⟨i, rfl⟩
  · exact ⟨h, .refl _⟩
  · have hblock := h.block
    rw [htodo] at hblock
    exact ⟨h.moved (block_call hblock hbody) (.refl _) rfl rfl, .refl _⟩
  · have hblock := h.block
    rw [htodo] at hblock
    exact ⟨h.moved (block_complete hblock hfinished o) (.refl _) rfl rfl, .refl _⟩
  · have hblock := h.block
    rw [htodo] at hblock
    have hlt : Advances s.lt (s.lt.assign w) := assign_advances hblock
    exact ⟨h.moved (block_write hblock) hlt rfl rfl, hlt⟩
  · exact ⟨h.moved (h.block.congr rfl rfl rfl rfl) (.refl _) rfl rfl, .refl _⟩
  · exact ⟨h.read i, .refl _⟩

theorem inv_reachable {s : Watched ε ι} (h : lts.Reachable s) : Inv s := by
  refine Lts.invariant (M := lts) ?_ (fun _ _ _ hs hstep => (step_advances hs hstep).1) h
  rintro _ rfl
  exact inv_initial

theorem exec_advances {s t : Watched ε ι} (hs : Inv s) {es : List (Event ε ι)}
    (hrun : lts.exec s es = some t) : Advances s.lt t.lt := by
  have hstep : ∀ (u : Watched ε ι) (e : Event ε ι) (v : Watched ε ι), Inv u ∧ Advances s.lt u.lt →
    lts.step u e = some v →
      Inv v ∧ Advances s.lt v.lt := by
    rintro u e v ⟨hu, hsu⟩ huv
    obtain ⟨hv, huv'⟩ := step_advances hu huv
    exact ⟨hv, hsu.trans huv'⟩
  exact (Lts.exec_invariant (M := lts) hstep ⟨hs, .refl _⟩ hrun).2

/-- In every run, whatever calls arrive, in any order, from any thread: every observer sees the
state move forward only, the state itself moves forward only from any moment of the run on (so what
a stopped service tells never changes), the shutdown reason is assigned at most once, and between
two calls it is that of the first request. -/
theorem state_moves_forward {es : List (Event ε ι)} {s : Watched ε ι}
    (hrun : lts.exec initial es = some s) :
    (∀ i : ι, (s.seen i).Pairwise Forward) ∧
      (∀ es' t, lts.exec s es' = some t → Forward s.lt.state t.lt.state) ∧
      (s.reasonsSet.length ≤ 1 ∧ s.reasonsSet <+: s.requests) ∧
      (s.todo = [] → s.lt.shutdownReason = s.requests.head?.join) := by
  have hinv : Inv s := inv_reachable ⟨initial, es, rfl, hrun⟩
  refine ⟨hinv.ordered, ?_, hinv.block.reasonsSet_prefix, ?_⟩
  · intro es' t hrun'
    exact (exec_advances hinv hrun').forward
  · intro htodo
    have hblock := hinv.block
    rw [htodo] at hblock
    cases hblock with
    | none _ hs => exact hs.shutdownReason

/-- A service is started, two threads ask for its shutdown, it fails, and a late request comes. The
observer `true` looks between the assignments of the first request. -/
def lateRequest : List (Event Nat Bool) :=
  [.call .setStarted true, .write, .read true, .read true,
    .call (.shutdown (some (.text "SIGTERM"))) false,
    .write, .read true, .write, .call (.setShuttingDown none) true, .read false, .read false,
    .complete (.failed (.group [.single 7])), .write, .read false, .write,
    .call (.shutdown (some (.text "late"))) true, .read true, .read true, .read true]

theorem state_moves_forward_lateRequest :
    (∃ s : Watched Nat Bool, lts.exec initial lateRequest = some s ∧
      s.seen true =
        [.running, .stopped (some (.text "SIGTERM")) (some (.single 7))] ∧
      s.seen false = [.shuttingDown (some (.text "SIGTERM"))] ∧
      (∀ i : Bool, (s.seen i).Pairwise Forward) ∧
      s.lt.shutdownReason = s.requests.head?.join) := by
  have hrun : lts.exec (initial : Watched Nat Bool) lateRequest = some _ := rfl
  refine ⟨_, hrun, rfl, rfl, ?_⟩
  have h := state_moves_forward hrun
  exact ⟨h.1, h.2.2.2 rfl⟩

end Watched

end LocalPost.Hosting
