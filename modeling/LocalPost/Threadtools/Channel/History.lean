import LocalPost.Threadtools.Channel.Transition

/-!
# The history of every call

`history log c` is what the log says about call `c`. While a thread is inside the call, its control
point determines the history (`Story`); afterwards the history has one of five shapes (`Finished`).
So a call appends at most one item and takes at most one, a call that raises has taken nothing, and
only the second phase of a rendezvous `put` raises after an append.
-/

set_option autoImplicit false

namespace LocalPost.Threadtools.Channel

open LocalPost.Core

universe u

variable {T : Type u}

/-- The events of call `c`. -/
def history (log : List (Event T)) (c : Nat) : List (Event T) := log.filter fun e => e.call = c

/-- The appends of a log: call and item, oldest first. -/
def appendsOf (log : List (Event T)) : List (Nat × T) :=
  log.filterMap fun e => match e with
    | .appended c item => some (c, item)
    | _ => none

/-- The removals of a log: call and item, oldest first. -/
def takesOf (log : List (Event T)) : List (Nat × T) :=
  log.filterMap fun e => match e with
    | .took c item => some (c, item)
    | _ => none

/-- The appends whose items have been taken. -/
def deliveredOf (log : List (Event T)) : List (Nat × T) :=
  (appendsOf log).take (takesOf log).length

/-- The appends whose items are still in the buffer. -/
def pendingOf (log : List (Event T)) : List (Nat × T) :=
  (appendsOf log).drop (takesOf log).length

/-- The item a sending call carries. -/
def Op.sends : Op T → Option T
  | .put _ item _ => some item
  | .putNowait _ item => some item
  | _ => none

/-- Whether the call asks for an item. -/
def Op.receives : Op T → Bool
  | .get _ _ => true
  | .getNowait _ => true
  | _ => false

/-- The call a control point is inside. -/
def Pc.call : Pc T → Option Nat
  | .idle => none
  | .putting c _ _ => some c.call
  | .getting c _ => some c.call

/-- The history so far of the call a control point is inside. -/
inductive Story (capacity : Option Nat) : Pc T → List (Event T) → Prop
  | space (c asleep timeout) :
      Story capacity (.putting c .space asleep) [.began c.call (.put c.handle c.item timeout)]
  | handoff (c myTarget asleep timeout) (hcap : capacity = some 0) :
      Story capacity (.putting c (.handoff myTarget) asleep)
        [.began c.call (.put c.handle c.item timeout), .appended c.call c.item]
  | getting (c asleep timeout) :
      Story capacity (.getting c asleep) [.began c.call (.get c.handle timeout)]

/-- The history of a call that is over. -/
inductive Finished (capacity : Option Nat) (c : Nat) : List (Event T) → Prop
  | failed (op e) : Finished capacity c [.began c op, .raised c e]
  | returned (op) (hs : op.sends = none) (hr : op.receives = false) :
      Finished capacity c [.began c op, .returned c]
  | sent (op item) (hs : op.sends = some item) :
      Finished capacity c [.began c op, .appended c item, .returned c]
  | received (op item) (hr : op.receives = true) :
      Finished capacity c [.began c op, .took c item, .returned c]
  | handoffFailed (h item timeout e) (hcap : capacity = some 0)
      (he : e = .timeout ∨ e = .sendClosed) :
      Finished capacity c [.began c (.put h item timeout), .appended c item, .raised c e]

/-! ## Logs -/

section Logs

variable {log log' : List (Event T)}

theorem history_append (c : Nat) : history (log ++ log') c = history log c ++ history log' c :=
  List.filter_append ..

theorem appendsOf_append : appendsOf (log ++ log') = appendsOf log ++ appendsOf log' :=
  List.filterMap_append ..

theorem takesOf_append : takesOf (log ++ log') = takesOf log ++ takesOf log' :=
  List.filterMap_append ..

theorem history_eq_self {c : Nat} (h : ∀ e ∈ log, e.call = c) : history log c = log :=
  List.filter_eq_self.2 fun e he => by simpa using h e he

theorem history_eq_nil {c : Nat} (h : ∀ e ∈ log, e.call ≠ c) : history log c = [] :=
  List.filter_eq_nil_iff.2 fun e he => by simpa using h e he

theorem mem_history {e : Event T} {c : Nat} : e ∈ history log c ↔ e ∈ log ∧ e.call = c := by
  simp [history]

/-- The appends of one call can be read off its history. -/
theorem appendsOf_history (c : Nat) :
    appendsOf (history log c) = (appendsOf log).filter fun p => p.1 = c := by
  induction log with
  | nil => rfl
  | cons e log ih =>
    cases e with
    | appended d item =>
      by_cases hd : d = c
      · simpa [history, appendsOf, Event.call, hd] using ih
      · simpa [history, appendsOf, Event.call, hd] using ih
    | _ d =>
      by_cases hd : d = c
      · simpa [history, appendsOf, Event.call, hd] using ih
      · simpa [history, appendsOf, Event.call, hd] using ih

/-- The removals of one call can be read off its history. -/
theorem takesOf_history (c : Nat) :
    takesOf (history log c) = (takesOf log).filter fun p => p.1 = c := by
  induction log with
  | nil => rfl
  | cons e log ih =>
    cases e with
    | took d item =>
      by_cases hd : d = c
      · simpa [history, takesOf, Event.call, hd] using ih
      · simpa [history, takesOf, Event.call, hd] using ih
    | _ d =>
      by_cases hd : d = c
      · simpa [history, takesOf, Event.call, hd] using ih
      · simpa [history, takesOf, Event.call, hd] using ih

end Logs

/-! ## Every call follows its story -/

/-- Calls are numbered without gaps, a call is run by one thread and its history fits the control
point of that thread, and the calls nobody runs are over. -/
structure Stories (capacity : Option Nat) (s : Sys T) : Prop where
  fresh : ∀ e ∈ s.log, e.call < s.calls
  running : ∀ t c, (s.pc t).call = some c →
    c < s.calls ∧ Story capacity (s.pc t) (history s.log c)
  unique : ∀ t u c, (s.pc t).call = some c → (s.pc u).call = some c → t = u
  finished : ∀ c, c < s.calls → (∃ t, (s.pc t).call = some c) ∨
    Finished capacity c (history s.log c)

section Stories

variable {capacity : Option Nat} {s s' : Sys T}

theorem Stories.history_fresh (hs : Stories capacity s) : history s.log s.calls = [] :=
  history_eq_nil fun e he => Nat.ne_of_lt (hs.fresh e he)

/-- The histories survive a step in which thread `t` adds events of one call `k`: a new one, or the
one it runs, and the extended history fits its new control point or is over. -/
theorem Stories.extend (hs : Stories capacity s) {t k : Nat} {p : Pc T} {evs : List (Event T)}
    (hlog : s'.log = s.log ++ evs) (hpc : s'.pc = Function.update s.pc t p)
    (hevs : ∀ e ∈ evs, e.call = k)
    (hk : (s.pc t).call = none ∧ k = s.calls ∧ s'.calls = s.calls + 1 ∨
      (s.pc t).call = some k ∧ s'.calls = s.calls)
    (hp : p.call = some k ∧ Story capacity p (history s.log k ++ evs) ∨
      p.call = none ∧ Finished capacity k (history s.log k ++ evs)) : Stories capacity s' := by
  have hlt : k < s'.calls := by
    rcases hk with ⟨-, rfl, hcalls⟩ | ⟨hcall, hcalls⟩
    · omega
    · have hrun := (hs.running t k hcall).1
      omega
  have hle : s.calls ≤ s'.calls := by
    rcases hk with ⟨-, -, hcalls⟩ | ⟨-, hcalls⟩ <;> omega
  -- No other thread runs call `k`, so its history is the one that grows, and only it.
  have hother : ∀ u c, u ≠ t → (s.pc u).call = some c → c ≠ k := by
    rintro u c hu huc rfl
    rcases hk with ⟨-, rfl, -⟩ | ⟨hcall, -⟩
    · exact absurd (hs.running u _ huc).1 (Nat.lt_irrefl _)
    · exact hu (hs.unique u t c huc hcall)
  have hsame : ∀ c, c ≠ k → history s'.log c = history s.log c := by
    intro c hc
    have hnil : history evs c = [] := history_eq_nil fun e he => by
      rw [hevs e he]
      exact Ne.symm hc
    rw [hlog, history_append, hnil, List.append_nil]
  have hown : history s'.log k = history s.log k ++ evs := by
    rw [hlog, history_append, history_eq_self hevs]
  have hat : s'.pc t = p := by rw [hpc, Function.update_self]
  have hoff : ∀ u, u ≠ t → s'.pc u = s.pc u := fun u hu => by
    rw [hpc, Function.update_of_ne hu]
  have hpk : ∀ c, p.call = some c → c = k := by
    intro c hc
    rcases hp with ⟨hpk, -⟩ | ⟨hnone, -⟩
    · exact Option.some.inj (hc.symm.trans hpk)
    · rw [hnone] at hc
      cases hc
  -- The four parts of `Stories` in turn; thread `t` is told from the others in each.
  refine ⟨fun e he => ?_, fun u c hu => ?_, fun u v c hu hv => ?_, fun c hc => ?_⟩
  · rw [hlog, List.mem_append] at he
    rcases he with he | he
    · exact Nat.lt_of_lt_of_le (hs.fresh e he) hle
    · rw [hevs e he]
      exact hlt
  · by_cases hut : u = t
    · subst hut
      rw [hat] at hu ⊢
      obtain rfl := hpk c hu
      rcases hp with ⟨-, hstory⟩ | ⟨hnone, -⟩
      · rw [hown]
        exact ⟨hlt, hstory⟩
      · rw [hnone] at hu
        cases hu
    · rw [hoff u hut] at hu ⊢
      obtain ⟨hcl, hstory⟩ := hs.running u c hu
      rw [hsame c (hother u c hut hu)]
      exact ⟨Nat.lt_of_lt_of_le hcl hle, hstory⟩
  · by_cases hut : u = t
    · by_cases hvt : v = t
      · rw [hut, hvt]
      · subst hut
        rw [hat] at hu
        rw [hoff v hvt] at hv
        exact absurd (hpk c hu) (hother v c hvt hv)
    · rw [hoff u hut] at hu
      by_cases hvt : v = t
      · subst hvt
        rw [hat] at hv
        exact absurd (hpk c hv) (hother u c hut hu)
      · rw [hoff v hvt] at hv
        exact hs.unique u v c hu hv
  · by_cases hck : c = k
    · subst hck
      rcases hp with ⟨hpk', -⟩ | ⟨-, hfin⟩
      · exact Or.inl ⟨t, by rw [hat, hpk']⟩
      · rw [hown]
        exact Or.inr hfin
    · have hold : c < s.calls := by
        rcases hk with ⟨-, rfl, hcalls⟩ | ⟨-, hcalls⟩ <;> omega
      rw [hsame c hck]
      refine (hs.finished c hold).imp_left fun ⟨u, hu⟩ => ⟨u, ?_⟩
      have hut : u ≠ t := by
        rintro rfl
        rcases hk with ⟨hnone, -, -⟩ | ⟨hcall, -⟩
        · rw [hnone] at hu
          cases hu
        · exact hck (Option.some.inj (hu.symm.trans hcall))
      rw [hoff u hut]
      exact hu

theorem Finished.call_eq {c : Nat} {evs : List (Event T)} (h : Finished capacity c evs) :
    ∀ e ∈ evs, e.call = c := by
  cases h <;> simp [Event.call]

/-- A new call that is over in the same step. -/
theorem Stories.whole (hs : Stories capacity s) {t : Nat} {evs : List (Event T)}
    (hpc : s.pc t = .idle) (hlog : s'.log = s.log ++ evs)
    (hpc' : s'.pc = Function.update s.pc t .idle) (hcalls : s'.calls = s.calls + 1)
    (hfin : Finished capacity s.calls evs) : Stories capacity s' := by
  refine hs.extend hlog hpc' hfin.call_eq (Or.inl ⟨by rw [hpc]; rfl, rfl, hcalls⟩)
    (Or.inr ⟨rfl, ?_⟩)
  rw [hs.history_fresh]
  exact hfin

/-- A call that ends. -/
theorem Stories.ends (hs : Stories capacity s) {t k : Nat} {evs : List (Event T)}
    (hcall : (s.pc t).call = some k) (hlog : s'.log = s.log ++ evs)
    (hpc' : s'.pc = Function.update s.pc t .idle) (hcalls : s'.calls = s.calls)
    (hevs : ∀ e ∈ evs, e.call = k)
    (hfin : Finished capacity k (history s.log k ++ evs)) : Stories capacity s' :=
  hs.extend hlog hpc' hevs (Or.inr ⟨hcall, hcalls⟩) (Or.inr ⟨rfl, hfin⟩)

/-- A call that goes on without an event. -/
theorem Stories.goesOn (hs : Stories capacity s) {t k : Nat} {p : Pc T}
    (hcall : (s.pc t).call = some k) (hlog : s'.log = s.log)
    (hpc' : s'.pc = Function.update s.pc t p) (hcalls : s'.calls = s.calls)
    (hp : p.call = some k) (hstory : ∀ evs, Story capacity (s.pc t) evs → Story capacity p evs) :
    Stories capacity s' := by
  refine hs.extend (hlog.trans (List.append_nil _).symm) hpc' (by simp) (Or.inr ⟨hcall, hcalls⟩)
    (Or.inl ⟨hp, ?_⟩)
  rw [List.append_nil]
  exact hstory _ (hs.running t k hcall).2

/-- The history of a `put` in phase 1. -/
theorem Stories.of_space (hs : Stories capacity s) {t : Nat} {c : PutCall T} {asleep : Bool}
    (hpc : s.pc t = .putting c .space asleep) :
    ∃ timeout, history s.log c.call = [.began c.call (.put c.handle c.item timeout)] := by
  have hstory := (hs.running t c.call (by rw [hpc]; rfl)).2
  rw [hpc] at hstory
  generalize hevs : history s.log c.call = evs at hstory
  cases hstory with
  | space _ _ timeout => exact ⟨timeout, rfl⟩

/-- The history of a `put` in phase 2. -/
theorem Stories.of_handoff (hs : Stories capacity s) {t : Nat} {c : PutCall T} {myTarget : Int}
    {asleep : Bool} (hpc : s.pc t = .putting c (.handoff myTarget) asleep) :
    capacity = some 0 ∧ ∃ timeout, history s.log c.call =
      [.began c.call (.put c.handle c.item timeout), .appended c.call c.item] := by
  have hstory := (hs.running t c.call (by rw [hpc]; rfl)).2
  rw [hpc] at hstory
  generalize hevs : history s.log c.call = evs at hstory
  cases hstory with
  | handoff _ _ _ timeout hcap => exact ⟨hcap, timeout, rfl⟩

/-- The history of a `get`. -/
theorem Stories.of_getting (hs : Stories capacity s) {t : Nat} {c : GetCall} {asleep : Bool}
    (hpc : s.pc t = .getting c asleep) :
    ∃ timeout, history s.log c.call = [.began c.call (.get c.handle timeout)] := by
  have hstory := (hs.running t c.call (by rw [hpc]; rfl)).2
  rw [hpc] at hstory
  generalize hevs : history s.log c.call = evs at hstory
  cases hstory with
  | getting _ _ timeout => exact ⟨timeout, rfl⟩

/-- A move without an item keeps the stories of the calls. -/
theorem Quiet.stories (hs : Stories capacity s) {t calls : Nat} {pc : Pc T} {evs : List (Event T)}
    (hq : Quiet s t pc calls evs) (chan : ChannelState T) :
    Stories capacity { s with
      chan := chan, pc := Function.update s.pc t pc
      calls := calls, log := s.log ++ evs } := by
  -- Each quiet step begins a call, or writes the last event of one.
  cases hq with
  | beginPut h item timeout d hpc hd =>
    refine hs.extend rfl rfl (by simp [Event.call]) (Or.inl ⟨by rw [hpc]; rfl, rfl, rfl⟩)
      (Or.inl ⟨rfl, ?_⟩)
    rw [hs.history_fresh]
    exact .space ⟨s.calls, h, item, d⟩ false timeout
  | beginGet h timeout d hpc hd =>
    refine hs.extend rfl rfl (by simp [Event.call]) (Or.inl ⟨by rw [hpc]; rfl, rfl, rfl⟩)
      (Or.inl ⟨rfl, ?_⟩)
    rw [hs.history_fresh]
    exact .getting ⟨s.calls, h, d⟩ false timeout
  | refused op e hpc => exact hs.whole hpc rfl rfl rfl (.failed op e)
  | closedAgain h hpc => exact hs.whole hpc rfl rfl rfl (.returned _ rfl rfl)
  | closedReceiveAgain h hpc => exact hs.whole hpc rfl rfl rfl (.returned _ rfl rfl)
  -- a call that raises before its append has failed
  | putRaised c e hpc hwhy =>
    obtain ⟨timeout, hist⟩ := hs.of_space hpc
    refine hs.ends (k := c.call) (by rw [hpc]; rfl) rfl rfl rfl (by simp [Event.call]) ?_
    rw [hist]
    exact .failed _ e
  | handoffClosed c myTarget hpc hclosed =>
    obtain ⟨hcap, timeout, hist⟩ := hs.of_handoff hpc
    refine hs.ends (k := c.call) (by rw [hpc]; rfl) rfl rfl rfl (by simp [Event.call]) ?_
    rw [hist]
    exact .handoffFailed _ _ _ _ hcap (Or.inr rfl)
  -- behind the append the failure is one of the hand-off
  | handoffTimeout c myTarget hpc hlt hopen =>
    obtain ⟨hcap, timeout, hist⟩ := hs.of_handoff hpc
    refine hs.ends (k := c.call) (by rw [hpc]; rfl) rfl rfl rfl (by simp [Event.call]) ?_
    rw [hist]
    exact .handoffFailed _ _ _ _ hcap (Or.inl rfl)
  | handoffReturned c myTarget hpc hopen hdone =>
    obtain ⟨hcap, timeout, hist⟩ := hs.of_handoff hpc
    refine hs.ends (k := c.call) (by rw [hpc]; rfl) rfl rfl rfl (by simp [Event.call]) ?_
    rw [hist]
    exact .sent _ _ rfl
  | getRaised c e hpc hwhy =>
    obtain ⟨timeout, hist⟩ := hs.of_getting hpc
    refine hs.ends (k := c.call) (by rw [hpc]; rfl) rfl rfl rfl (by simp [Event.call]) ?_
    rw [hist]
    exact .failed _ e

/-- An append goes into the story of its call. -/
theorem Pushes.stories (hcap : s.chan.capacity = capacity) (hs : Stories capacity s)
    {t calls : Nat} {item : T} {claim : Bool} {pc : Pc T} {evs : List (Event T)}
    (hp : Pushes s t item claim pc calls evs) (chan : ChannelState T) :
    Stories capacity { s with
      chan := chan, pc := Function.update s.pc t pc
      calls := calls, log := s.log ++ evs } := by
  cases hp with
  | nowait h item hpc hclosed => exact hs.whole hpc rfl rfl rfl (.sent _ item rfl)
  | put c hpc hclosed hne =>
    obtain ⟨timeout, hist⟩ := hs.of_space hpc
    refine hs.ends (k := c.call) (by rw [hpc]; rfl) rfl rfl rfl (by simp [Event.call]) ?_
    rw [hist]
    exact .sent _ _ rfl
  | rendezvous c hpc hclosed hzero =>
    obtain ⟨timeout, hist⟩ := hs.of_space hpc
    refine hs.extend (k := c.call) rfl rfl (by simp [Event.call])
      (Or.inr ⟨by rw [hpc]; rfl, rfl⟩) (Or.inl ⟨rfl, ?_⟩)
    rw [hist]
    exact .handoff c _ false timeout (hcap.symm.trans hzero)

/-- A take goes into the story of its call. -/
theorem Pulls.stories (hs : Stories capacity s) {t calls : Nat} {item : T} {evs : List (Event T)}
    (hp : Pulls s t item calls evs) (chan : ChannelState T) :
    Stories capacity { s with
      chan := chan, pc := Function.update s.pc t .idle
      calls := calls, log := s.log ++ evs } := by
  cases hp with
  | nowait h item hpc hclosed => exact hs.whole hpc rfl rfl rfl (.received _ item rfl)
  | get c item hpc hclosed =>
    obtain ⟨timeout, hist⟩ := hs.of_getting hpc
    refine hs.ends (k := c.call) (by rw [hpc]; rfl) rfl rfl rfl (by simp [Event.call]) ?_
    rw [hist]
    exact .received _ item rfl

/-- Every move keeps the stories of the calls. -/
theorem move_stories (hcap : s.chan.capacity = capacity) (hs : Stories capacity s)
    {b : Option Nat} (h : Move s s' b) : Stories capacity s' := by
  -- Only a put, a take and the quiet steps write into a history.
  cases h with
  | tick d => exact ⟨hs.fresh, hs.running, hs.unique, hs.finished⟩
  | quiet t pc calls evs hq => exact hq.stories hs _
  | push t item claim pc calls evs hp hopen hroom => exact hp.stories hcap hs _
  | pull t item rest calls evs hp hbuf => exact hp.stories hs _
  -- falling asleep and waking up leave a call where it was
  | sleepSend t c phase hpc hopen hwait =>
    refine hs.goesOn (k := c.call) (by rw [hpc]; rfl) rfl rfl rfl rfl fun evs hstory => ?_
    rw [hpc] at hstory
    cases hstory with
    | space _ _ timeout => exact .space c true timeout
    | handoff _ myTarget _ timeout hzero => exact .handoff c myTarget true timeout hzero
  | sleepReceive t c hpc hopen hsend hbuf =>
    refine hs.goesOn (k := c.call) (by rw [hpc]; rfl) rfl rfl rfl rfl fun evs hstory => ?_
    rw [hpc] at hstory
    cases hstory with
    | getting _ _ timeout => exact .getting c true timeout
  | wakeSend t c phase hpc =>
    refine hs.goesOn (k := c.call) (by rw [hpc]; rfl) rfl rfl rfl rfl fun evs hstory => ?_
    rw [hpc] at hstory
    cases hstory with
    | space _ _ timeout => exact .space c false timeout
    | handoff _ myTarget _ timeout hzero => exact .handoff c myTarget false timeout hzero
  | wakeReceive t c hpc =>
    refine hs.goesOn (k := c.call) (by rw [hpc]; rfl) rfl rfl rfl rfl fun evs hstory => ?_
    rw [hpc] at hstory
    cases hstory with
    | getting _ _ timeout => exact .getting c false timeout
  -- cloning and closing are whole calls, of an idle thread
  | cloneSend t h hpc hopen =>
    exact hs.whole hpc rfl (update_idle hpc).symm rfl (.returned _ rfl rfl)
  | cloneReceive t h hpc hopen =>
    exact hs.whole hpc rfl (update_idle hpc).symm rfl (.returned _ rfl rfl)
  | closeSend t h hpc hopen =>
    exact hs.whole hpc rfl (update_idle hpc).symm rfl (.returned _ rfl rfl)
  | closeReceive t h hpc hopen =>
    exact hs.whole hpc rfl (update_idle hpc).symm rfl (.returned _ rfl rfl)

theorem stories_start : Stories capacity (Sys.start capacity : Sys T) where
  fresh := by simp [Sys.start]
  running t c h := by cases h
  unique t u c h := by cases h
  finished c h := absurd h (Nat.not_lt_zero c)

/-- In every reachable state every call follows its story. -/
theorem stories_reachable (h : (system T capacity).Reachable s) : Stories capacity s :=
  invariant_of_moves stories_start
    (fun _ _ _ hr hs hmove => move_stories (invOf_reachable hr).capacity_eq hs hmove) h

end Stories

end LocalPost.Threadtools.Channel
