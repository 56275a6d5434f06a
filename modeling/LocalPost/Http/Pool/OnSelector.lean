import LocalPost.Http.Base.StaleSweep
import LocalPost.Http.Pool.Run

/-!
# The pool's connections on the selector

The pool keeps four fields of a connection. `look` reads them off the selector, with its map and its
queue, and `effect` is what a step of the selector does to them. For a connection that shares its
descriptor number with no other one the two agree in every step (`step_look`). What happens when a
number is used again is the subject of `Base.FdReuse`.
-/

set_option autoImplicit false

namespace LocalPost.Http.Pool

open LocalPost.Core LocalPost.Http.Base
open LocalPost.Http.Base.Deadlines
  (conns_unregisterSock isOpen_stopTracking fd_stopTracking isOpen_foldl_sockClose
  isOpen_foldl_stopTracking map_stopTracking_self)

/-- What the pool keeps of a connection that is open. -/
def Conn.look (k : Conn) : Option (Bool × Bool × Nat) :=
  if k.isOpen then some (k.tracked, k.registered, k.queued) else none

namespace OnSelector

/-- The same of connection `d` of the selector. -/
def look (s : Selector) (d : Nat) : Option (Bool × Bool × Nat) :=
  if s.isOpen d then
    some (s.tracked d, (s.map (s.fd d)).any (fun key => key.data = d), s.ops.count (.track d))
  else none

/-- What a step of the selector does to connection `d`. The pool's `close` is a `closeMark` and its
`closeSock` in one step. -/
def effect (s : Selector) (a : Base.Act) (d : Nat) (k : Conn) : Conn :=
  match a with
  | .track c here => if c = d ∧ s.tracked c = false then k.track here else k
  | .postTrack c => if c = d then k.track false else k
  | .stopTracking c => if c = d then k.stopTracking else k
  | .closeMark c => if c = d then { k with tracked := false } else k
  | .closeSock i => if (s.marked[i]?).any (fun m => m.1 = d) then k.close else k
  | .closeHere c => if c = d then k.close else k
  | .drain =>
    match s.ops with
    | .track c :: _ => if c = d then k.applyTrack else k
    | _ => k
  | .cleanupStale late =>
    if d ∈ late ∧ (s.map (s.fd d)).any (fun key => key.data = d) then k.sweep else k
  | _ => k

variable {s s' : Selector} {c d : Nat} {k : Conn}

theorem look_closed (hclosed : s.isOpen d = false) : look s d = none := by
  rw [look, hclosed]
  rfl

/-- A step that leaves the four fields alone. -/
theorem look_congr (hopen : s'.isOpen d = s.isOpen d) (htracked : s'.tracked d = s.tracked d)
    (hfd : s'.fd d = s.fd d) (hmap : s'.map (s.fd d) = s.map (s.fd d))
    (hops : s'.ops.count (.track d) = s.ops.count (.track d)) : look s' d = look s d := by
  rw [look, look, hopen, htracked, hfd, hmap, hops]

/-- Of the queue only the tracks of the connection matter. -/
theorem look_queue (s : Selector) {ops : List Op} {marked : List (Nat × Bool)} {closing : List Nat}
    (hops : ops.count (.track d) = s.ops.count (.track d)) :
    look { s with ops := ops, marked := marked, closing := closing } d = look s d :=
  look_congr rfl rfl rfl rfl hops

/-- An open connection and what the pool keeps of it. -/
theorem of_look (hk : k.look = look s d) (hopen : s.isOpen d = true) :
    k.isOpen = true ∧ k.tracked = s.tracked d ∧
      k.registered = (s.map (s.fd d)).any (fun key => key.data = d) ∧ k.queued =
        s.ops.count (.track d) := by
  rw [look, if_pos hopen, Conn.look] at hk
  obtain ⟨hk', heq⟩ := Option.ite_none_right_eq_some.1 hk
  simp only [Option.some.injEq, Prod.mk.injEq] at heq
  exact ⟨hk', heq⟩

/-- The other direction. -/
theorem look_of (hopen : s.isOpen d = true) (hk : k.isOpen = true)
    (htracked : k.tracked = s.tracked d)
    (hregistered : k.registered = (s.map (s.fd d)).any (fun key => key.data = d))
    (hqueued : k.queued = s.ops.count (.track d)) : k.look = look s d := by
  rw [look, if_pos hopen, Conn.look, if_pos hk, htracked, hregistered, hqueued]

/-! ## The operations -/

theorem look_setTracked_ne (hne : c ≠ d) (b : Bool) : look (s.setTracked c b) d = look s d := by
  refine look_congr (by simp) ?_ (by simp) rfl rfl
  rw [Selector.tracked_setTracked, if_neg (Ne.symm hne)]

theorem look_sockClose_ne (hne : c ≠ d) : look (s.sockClose c) d = look s d := by
  refine look_congr ?_ (by simp) (by simp) (by simp) (by simp)
  rw [Selector.isOpen_sockClose, if_neg (Ne.symm hne)]

/-- Only the key under its own descriptor is removed. -/
theorem map_unregisterSock_ne {f : Nat} (hne : f ≠ s.fd c) :
    (s.unregisterSock c).map f = s.map f := by
  unfold Selector.unregisterSock
  split
  · rename_i f' hlookup
    obtain ⟨rfl, -⟩ := Selector.fileobjLookup_cases hlookup
    rw [Selector.map_unregister, if_neg hne]
  · rfl

theorem ops_unregisterSock : (s.unregisterSock c).ops = s.ops := by
  unfold Selector.unregisterSock
  split
  · exact Selector.ops_unregister _ _
  · rfl

theorem look_stopTracking_ne (hne : c ≠ d) (hfd : s.fd d ≠ s.fd c) :
    look (s.stopTracking c) d = look s d := by
  rw [Selector.stopTracking, look_setTracked_ne hne]
  have hconns : ∀ e, (s.unregisterSock c).conns e = s.conns e :=
    fun e => by rw [conns_unregisterSock]
  refine look_congr ?_ ?_ ?_ (map_unregisterSock_ne hfd) (by rw [ops_unregisterSock])
  · rw [Selector.isOpen, hconns, Selector.isOpen]
  · rw [Selector.tracked, hconns, Selector.tracked]
  · rw [Selector.fd, hconns, Selector.fd]

theorem look_applyTrack_ne (hi : s.Inv) (hne : c ≠ d) (hfd : s.fd d ≠ s.fd c) :
    look (s.applyTrack c) d = look s d := by
  obtain ⟨-, -, heq⟩ | ⟨key, -, -, heq⟩ | ⟨-, heq⟩ := Selector.applyTrack_cases hi c
  · rw [heq]
    exact look_congr rfl rfl rfl (Function.update_of_ne hfd _ _) rfl
  · rw [heq]
    exact look_congr rfl rfl rfl (Function.update_of_ne hfd _ _) rfl
  · rw [heq]
    exact look_setTracked_ne hne false

/-- An open connection is in the map after its track has been applied, and nothing else of it
changes. -/
theorem look_applyTrack (hi : s.Inv) (hopen : s.isOpen d = true) :
    look (s.applyTrack d) d = some (s.tracked d, true, s.ops.count (.track d)) := by
  obtain ⟨-, -, heq⟩ | ⟨key, -, -, heq⟩ | ⟨hclosed, -⟩ := Selector.applyTrack_cases hi d
  · rw [heq, look, if_pos (by exact hopen)]
    simp [Selector.tracked, Selector.fd]
  · rw [heq, look, if_pos (by exact hopen)]
    simp [Selector.tracked, Selector.fd]
  · cases hopen.symm.trans hclosed

/-- A sweep leaves a connection alone that is not among its own. -/
theorem look_sweep_ne {cs : List Nat} (hd : d ∉ cs) (hfd : ∀ c, s.fd c = s.fd d → c = d) :
    look (cs.foldl Selector.stopTracking s) d = look s d := by
  induction cs generalizing s with
  | nil => rfl
  | cons c cs ih =>
    rw [List.mem_cons, not_or] at hd
    have hne : s.fd d ≠ s.fd c := fun heq => hd.1 (hfd c heq.symm).symm
    rw [List.foldl_cons, ih hd.2, look_stopTracking_ne (Ne.symm hd.1) hne]
    intro e he
    rw [fd_stopTracking, fd_stopTracking] at he
    exact hfd e he

theorem look_closes_ne {cs : List Nat} (hd : d ∉ cs) :
    look (cs.foldl Selector.sockClose s) d = look s d := by
  induction cs generalizing s with
  | nil => rfl
  | cons c cs ih =>
    rw [List.mem_cons, not_or] at hd
    rw [List.foldl_cons, ih hd.2, look_sockClose_ne (Ne.symm hd.1)]

/-- `track` of another connection. -/
theorem look_track_ne (hi : s.Inv) (hne : c ≠ d) (hfd : s.fd d ≠ s.fd c) (here : Bool) :
    look (s.track c here) d = look s d := by
  unfold Selector.track
  split
  · rfl
  · split
    · rw [look_applyTrack_ne (hi.setTracked c true) hne (by simpa using hfd),
        look_setTracked_ne hne]
    · refine (look_queue (s.setTracked c true) ?_).trans (look_setTracked_ne hne true)
      simp [List.count_append, hne]

/-- `track` of a borrowed connection: at once on the selector thread, else in the queue. -/
theorem look_track (hi : s.Inv) (hopen : s.isOpen d = true) (hk : k.look = look s d) (here : Bool) :
    (if s.tracked d = false then k.track here else k).look = look (s.track d here) d := by
  obtain ⟨hk', -, hregistered, hqueued⟩ := of_look hk hopen
  unfold Selector.track
  cases htracked : s.tracked d with
  | true => exact hk
  | false =>
    cases here with
    | true =>
      rw [if_pos rfl, if_neg (by simp), if_pos rfl, look_applyTrack (hi.setTracked d true)
        (by simpa using hopen), Conn.look, if_pos (by exact hk')]
      simp [Conn.track, Selector.tracked_setTracked, hqueued]
    | false =>
      rw [if_pos rfl, if_neg (by simp), if_neg (by simp)]
      refine look_of (by exact (Selector.isOpen_setTracked s d d true).trans hopen)
        (by exact hk') ?_ ?_ ?_
      · exact ((Selector.tracked_setTracked s d d true).trans (if_pos rfl)).symm
      · exact hregistered.trans (by simp [Selector.fd, Selector.setTracked])
      · simp [Conn.track, hqueued, List.count_append]

/-! ## A step -/

/-- In every step, what the pool keeps of a connection is what the selector has of it, until its
socket is closed. -/
theorem step_look (hi : s.Inv) (hopen : s.isOpen d = true) (hfd : ∀ c, s.fd c = s.fd d → c = d)
    (hops : Op.close (s.fd d) ∉ s.ops) (hk : k.look = look s d) {a : Base.Act}
    (h : s.step a = some s') : (effect s a d k).look = look s' d := by
  obtain ⟨hk', htracked, hregistered, hqueued⟩ := of_look hk hopen
  -- Each step is for `d` itself or for another connection, which has another descriptor.
  have hother : ∀ {c}, c ≠ d → s.fd d ≠ s.fd c := fun hne heq => hne (hfd _ heq.symm)
  cases a with
  | accept fd =>
    obtain ⟨-, ⟨⟩⟩ := Option.ite_none_right_eq_some.1 h
    -- the accepted connection is a new one
    have hne : d ≠ s.next := Nat.ne_of_lt (hi.lt_next hopen)
    have hconn : Function.update s.conns s.next ⟨fd, true, false⟩ d = s.conns d :=
      Function.update_of_ne hne _ _
    refine hk.trans ?_
    symm
    apply look_congr
    · exact congrArg Base.Conn.isOpen hconn
    · exact congrArg Base.Conn.tracked hconn
    · exact congrArg Base.Conn.fd hconn
    · rfl
    · rfl
  -- on the selector's own thread: the map and the flag at once
  | track c here =>
    obtain ⟨-, ⟨⟩⟩ := Option.ite_none_right_eq_some.1 h
    by_cases hc : c = d
    · subst hc
      simp only [effect, true_and]
      exact look_track hi hopen hk here
    · simp only [effect, hc, false_and, if_false]
      rw [look_track_ne hi hc (hother hc), hk]
  -- on a worker's: the flag at once, the map with the operation
  | postTrack c =>
    obtain ⟨-, ⟨⟩⟩ := Option.ite_none_right_eq_some.1 h
    by_cases hc : c = d
    · subst hc
      simp only [effect, if_true]
      refine look_of (by exact (Selector.isOpen_setTracked s c c true).trans hopen)
        (by exact hk') ?_ ?_ ?_
      · exact ((Selector.tracked_setTracked s c c true).trans (if_pos rfl)).symm
      · exact hregistered.trans (by simp [Selector.postTrack, Selector.fd, Selector.setTracked])
      · simp [Conn.track, Selector.postTrack, hqueued, List.count_append]
    · simp only [effect, hc, if_false]
      refine hk.trans
        ((look_queue (s.setTracked c true) ?_).trans (look_setTracked_ne hc true)).symm
      simp [List.count_append, hc]
  | postClose fd =>
    cases h
    refine hk.trans (look_queue s ?_).symm
    simp [List.count_append]
  -- the key of an open connection is removed with its flag
  | stopTracking c =>
    obtain ⟨-, ⟨⟩⟩ := Option.ite_none_right_eq_some.1 h
    by_cases hc : c = d
    · subst hc
      simp only [effect, if_true]
      refine look_of (by rw [isOpen_stopTracking]; exact hopen) hk' ?_ ?_ ?_
      · exact ((Selector.tracked_setTracked _ c c false).trans (if_pos rfl)).symm
      · rw [fd_stopTracking, map_stopTracking_self s c hopen]
        rfl
      · rw [Selector.stopTracking, Selector.ops_setTracked, ops_unregisterSock]
        exact hqueued
    · simp only [effect, hc, if_false]
      rw [look_stopTracking_ne hc (hother hc), hk]
  -- `close` marks first; socket and operation follow as steps of their own
  | closeMark c =>
    obtain ⟨-, ⟨⟩⟩ := Option.ite_none_right_eq_some.1 h
    by_cases hc : c = d
    · subst hc
      simp only [effect, if_true]
      refine look_of
        (by exact (Selector.isOpen_setTracked s c c false).trans hopen) hk' ?_ ?_ hqueued
      · exact ((Selector.tracked_setTracked s c c false).trans (if_pos rfl)).symm
      · exact hregistered.trans (by simp [Selector.closeMark, Selector.fd, Selector.setTracked])
    · simp only [effect, hc, if_false]
      exact hk.trans
        ((look_queue (s.setTracked c false) rfl).trans (look_setTracked_ne hc false)).symm
  | closeSock i =>
    obtain ⟨⟨c, wasTracked⟩, hmark, rfl⟩ := Option.map_eq_some_iff.1 h
    simp only [effect, hmark, Option.any_some, decide_eq_true_eq]
    by_cases hc : c = d
    · subst hc
      rw [if_pos rfl]
      refine (look_closed ?_).symm
      exact (Selector.isOpen_sockClose s c c).trans (if_pos rfl)
    · rw [if_neg hc]
      exact hk.trans ((look_queue (s.sockClose c) (by simp)).trans (look_sockClose_ne hc)).symm
  -- a queued close is only counted as an operation
  | closePost i =>
    obtain ⟨fd, -, rfl⟩ := Option.map_eq_some_iff.1 h
    refine hk.trans (look_queue s ?_).symm
    simp [List.count_append]
  | closeHere c =>
    obtain ⟨-, ⟨⟩⟩ := Option.ite_none_right_eq_some.1 h
    -- a close of another connection leaves the key and the flag of `d`
    have hsame : c ≠ d → look ((s.setTracked c false).sockClose c) d = look s d := fun hc => by
      rw [look_sockClose_ne hc, look_setTracked_ne hc]
    by_cases hc : c = d
    · subst hc
      simp only [effect, if_true]
      refine (look_closed ?_).symm
      unfold Selector.closeHere
      split
      · rw [Selector.isOpen_unregister, Selector.isOpen_sockClose, if_pos rfl]
      · rw [Selector.isOpen_sockClose, if_pos rfl]
    · simp only [effect, hc, if_false]
      rw [hk, ← hsame hc]
      unfold Selector.closeHere
      split
      · refine (look_congr (by simp) (by simp) (by simp) ?_ (by simp)).symm
        rw [Selector.map_unregister, if_neg (by simpa using hother hc)]
      · rfl
  -- the next operation of the queue, for `d`, for another connection, or a close
  | drain =>
    simp only [Selector.step, Selector.drain] at h
    split at h
    · cases h
    · rename_i c rest hqueue
      cases h
      have hi' : Selector.Inv { s with ops := rest } :=
        hi.of_eq rfl (fun _ => rfl) (fun _ => rfl) rfl rfl
      simp only [effect, hqueue]
      by_cases hc : c = d
      · subst hc
        rw [if_pos rfl, look_applyTrack hi' (by exact hopen), Conn.applyTrack, if_pos hk',
          Conn.look, if_pos (by exact hk')]
        rw [hqueue] at hqueued
        simp [hqueued, htracked, Selector.tracked]
      · rw [if_neg hc, look_applyTrack_ne hi' hc (by exact hother hc), hk]
        refine (look_queue s ?_).symm
        simp [hqueue, hc]
    · rename_i fd rest hqueue
      cases h
      simp only [effect, hqueue]
      -- no close for the descriptor of `d` is queued, by assumption
      have hfd' : s.fd d ≠ fd := by
        rintro rfl
        exact hops (by simp [hqueue])
      refine hk.trans (look_congr ?_ ?_ ?_ ?_ ?_).symm
      · exact Selector.isOpen_unregister _ _ _
      · exact Selector.tracked_unregister _ _ _
      · exact Selector.fd_unregister _ _ _
      · rw [Selector.map_unregister, if_neg hfd']
      · rw [Selector.ops_unregister, hqueue]
        simp
  -- the sweep closes those whose key is their own
  | cleanupStale late =>
    cases h
    simp only [effect]
    split
    · rename_i hstale
      refine (look_closed ?_).symm
      unfold Selector.cleanupStale
      rw [isOpen_foldl_sockClose, if_pos (List.mem_filter.2 hstale)]
    · rename_i hstale
      have hnot : d ∉ late.filter fun c => (s.map (s.fd c)).any fun key => key.data = c :=
        fun hmem => hstale (List.mem_filter.1 hmem)
      unfold Selector.cleanupStale
      rw [look_closes_ne hnot, look_sweep_ne hnot hfd, hk]

end OnSelector

end LocalPost.Http.Pool
