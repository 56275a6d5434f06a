import LocalPost.Core.MemoryStream
import Mathlib.Algebra.Ring.Parity
import Mathlib.Data.List.Nodup

/-!
# The task of a schedule and its subscribers

`Task.__call__` publishes each result to the streams of its subscribers. `_publish_result` walks the
list of the subscribers by position and deletes those whose receiver has gone from the list it
walks, so the entry behind a deleted one moves to the position that has been passed and is skipped.

`publishLoop_eq_walk` describes the loop as a walk over what is left of the list, and `walk_stream`
says which stream gets the result: one that is live and behind an even number of consecutive broken
ones.
-/

set_option autoImplicit false

namespace LocalPost.Scheduler

open LocalPost.Core

/-- `Result`: the value of a call, or the exception of its handler. -/
inductive Result (V E : Type) where
  | ok (value : V)
  | failure (error : E)
  deriving DecidableEq, Repr

/-- A `Task`: the streams that its exit stack holds, in the order of the subscriptions, the
positions in this list of the subscribers it publishes to, and the number of its users. -/
structure Task (σ : Type) where
  streams : List σ
  subscribers : List Nat
  users : Int
  finished : Bool

/-- `RuntimeError`: the task has already finished. -/
inductive SubscribeError where
  | alreadyFinished
  deriving DecidableEq, Repr

namespace Task

variable {σ V E : Type} (M : MemoryStreams σ (Result V E))

/-- A new task. -/
def fresh : Task σ := ⟨[], [], 0, false⟩

/-- `subscribe`. The stream's position is the subscriber's name. -/
def subscribe (t : Task σ) (bufferMaxSize : Option Nat) : Except SubscribeError (Task σ) :=
  if t.finished then .error .alreadyFinished
  else
    .ok { t with
      streams := t.streams ++ [M.create bufferMaxSize]
      subscribers := t.subscribers ++ [t.streams.length] }

/-- The stream of a subscriber is replaced. -/
def setStream (t : Task σ) (id : Nat) (s : σ) : Task σ := { t with streams := t.streams.set id s }

/-- The loop of `_publish_result` from position `i` on, for `fuel` rounds: the task, and what it
raises. -/
def publishLoop (result : Result V E) : Nat → Nat → Task σ → Task σ × Option SendError
  | 0, _, t => (t, none)
  | fuel + 1, i, t =>
    match t.subscribers[i]? with
    | none => (t, none)
    | some id =>
      match t.streams[id]? with
      -- every subscriber is one of the streams
      | none => publishLoop result fuel (i + 1) t
      | some subscriber =>
        match M.sendNowait subscriber result with
        | .ok s => publishLoop result fuel (i + 1) (t.setStream id s)
        | .error .brokenResource =>
          publishLoop result fuel (i + 1) { t with subscribers := t.subscribers.eraseIdx i }
        | .error .wouldBlock => publishLoop result fuel (i + 1) t
        | .error .closedResource => (t, some .closedResource)

/-- `_publish_result`: no round adds a subscriber, so the loop has at most as many rounds. -/
def publishResult (t : Task σ) (result : Result V E) : Task σ × Option SendError :=
  publishLoop M result t.subscribers.length 0 t

/-- `__aenter__`. -/
def enter (t : Task σ) : Task σ := { t with users := t.users + 1 }

/-- `__aexit__`: the last user finishes the task and closes its streams. -/
def exit (t : Task σ) : Task σ :=
  if t.users - 1 = 0 then
    { t with users := t.users - 1, finished := true, streams := t.streams.map M.closeSend }
  else { t with users := t.users - 1 }

/-! ## Which subscribers the loop comes by -/

/-- The entries of a list that a walk comes by when it deletes those that are gone from the list. -/
def visited (gone : Nat → Bool) : List Nat → List Nat
  | [] => []
  | [x] => [x]
  | x :: y :: rest => x :: (if gone x then visited gone rest else visited gone (y :: rest))

/-- The loop visits only those that are subscribed. -/
theorem visited_subset (gone : Nat → Bool) (l : List Nat) : visited gone l ⊆ l := by
  induction l using visited.induct with
  | case1 => exact List.nil_subset _
  | case2 x => exact List.Subset.refl _
  | case3 x y rest ihskip ihnext =>
    rw [visited]
    apply List.cons_subset_cons
    split
    · exact List.Subset.trans ihskip (List.subset_cons_self _ _)
    · exact ihnext

/-- One more entry is gone, or the count starts again. -/
def goneStep (gone : Nat → Bool) (k x : Nat) : Nat := if gone x then k + 1 else 0

/-- How many entries at the end of `pre` are gone, with none in between that is not. -/
def goneBefore (gone : Nat → Bool) (pre : List Nat) : Nat := pre.foldl (goneStep gone) 0

theorem even_foldl_goneStep (gone : Nat → Bool) (pre : List Nat) (k : Nat) :
    Even (pre.foldl (goneStep gone) (k + 2)) ↔ Even (pre.foldl (goneStep gone) k) := by
  induction pre generalizing k with
  | nil => simp [Nat.even_add]
  | cons x pre ih =>
    rw [List.foldl_cons, List.foldl_cons]
    cases hx : gone x with
    | true => simpa [goneStep, hx, Nat.add_right_comm] using ih (k + 1)
    | false => simp [goneStep, hx]

/-- The walk comes by an entry exactly when an even number of deleted ones stand directly before
it. -/
theorem mem_visited_iff {gone : Nat → Bool} {l : List Nat} (hnodup : l.Nodup) {pre post : List Nat}
    {x : Nat} (hl : l = pre ++ x :: post) : x ∈ visited gone l ↔ Even (goneBefore gone pre) := by
  induction l using visited.induct generalizing pre with
  | case1 => simp at hl
  | case2 y =>
    obtain ⟨rfl, rfl, rfl⟩ : pre = [] ∧ y = x ∧ post = [] := by
      cases pre <;> simp_all
    simp [visited, goneBefore]
  | case3 y z rest ihskip ihnext =>
    have hy : y ∉ z :: rest := (List.nodup_cons.1 hnodup).1
    have hz : z ∉ rest := (List.nodup_cons.1 (List.nodup_cons.1 hnodup).2).1
    have hrest : rest.Nodup := (List.nodup_cons.1 (List.nodup_cons.1 hnodup).2).2
    cases pre with
    | nil =>
      obtain ⟨rfl, -⟩ := List.cons.inj hl
      simp [visited, goneBefore]
    | cons y' pre =>
      obtain ⟨rfl, htail⟩ := List.cons.inj hl
      have hne : x ≠ y := by
        rintro rfl
        exact hy (htail ▸ List.mem_append_right _ List.mem_cons_self)
      rw [visited, List.mem_cons, or_iff_right hne]
      cases hgone : gone y with
      | false =>
        rw [if_neg (by simp), ihnext (List.nodup_cons.1 hnodup).2 htail]
        simp [goneBefore, goneStep, hgone]
      | true =>
        rw [if_pos rfl]
        cases pre with
        | nil =>
          -- the entry that has moved to the deleted one's position
          obtain ⟨rfl, -⟩ := List.cons.inj htail
          have hout : z ∉ visited gone rest := fun h => hz (visited_subset gone rest h)
          simp [goneBefore, goneStep, hgone, hout]
        | cons z' pre =>
          obtain ⟨rfl, hrest'⟩ := List.cons.inj htail
          rw [ihskip hrest hrest']
          cases hgone' : gone z with
          | true =>
            simpa [goneBefore, goneStep, hgone, hgone'] using (even_foldl_goneStep gone pre 0).symm
          | false => simp [goneBefore, goneStep, hgone, hgone']

/-! ## What the loop does -/

variable {M}

/-- The receiver of the subscriber has gone. -/
def broken (M : MemoryStreams σ (Result V E)) (t : Task σ) (id : Nat) : Bool :=
  t.streams[id]?.any M.receiveClosed

/-- Nothing has closed the task's streams, and the subscribers are among them, each once. -/
structure Open (M : MemoryStreams σ (Result V E)) (t : Task σ) : Prop where
  sending : ∀ s ∈ t.streams, M.sendClosed s = false
  nodup : t.subscribers.Nodup
  valid : ∀ id ∈ t.subscribers, id < t.streams.length

/-- What a publication does to a stream that the loop comes by. -/
def Gets (M : MemoryStreams σ (Result V E)) (result : Result V E) (s s' : σ) : Prop :=
  if M.live s = true then
    M.sendClosed s' = false ∧ M.receiveClosed s' = false ∧ M.accepted s' = M.accepted s ++ [result]
  else s' = s

/-- The loop over `rest`, with the subscribers `done` behind it. -/
structure Walked (M : MemoryStreams σ (Result V E)) (result : Result V E) (done rest : List Nat)
    (t t' : Task σ) : Prop where
  users : t'.users = t.users
  finished : t'.finished = t.finished
  length : t'.streams.length = t.streams.length
  stream : ∀ (id : Nat) (s : σ), t.streams[id]? = some s → ∃ s', t'.streams[id]? = some s' ∧
    if id ∈ visited (t.broken M) rest then Gets M result s s' else s' = s
  kept : ∃ kept : List Nat, t'.subscribers = done ++ kept ∧ kept.Sublist rest ∧
    ∀ id ∈ rest, t.broken M id = false → id ∈ kept

theorem broken_setStream {t : Task σ} {x : Nat} {s s' : σ} (hs : t.streams[x]? = some s)
    (h : M.receiveClosed s' = M.receiveClosed s) : (t.setStream x s').broken M = t.broken M := by
  funext id
  rw [broken, broken, setStream]
  by_cases hid : x = id
  · subst hid
    obtain ⟨hlt, -⟩ := List.getElem?_eq_some_iff.1 hs
    simp [List.getElem?_set_self hlt, hs, h]
  · simp [List.getElem?_set_ne hid]

theorem visited_cons_of_not {gone : Nat → Bool} {x : Nat} (h : gone x = false) (l : List Nat) :
    visited gone (x :: l) = x :: visited gone l := by
  cases l with
  | nil => rfl
  | cons y l => rw [visited, h, if_neg (by simp)]

theorem broken_eq {t : Task σ} {x : Nat} {s : σ} (hs : t.streams[x]? = some s) :
    t.broken M x = M.receiveClosed s := by
  simp [broken, hs]

theorem setStream_self {t : Task σ} {x : Nat} {s : σ} (hs : t.streams[x]? = some s) :
    t.setStream x s = t := by
  obtain ⟨hlt, rfl⟩ := List.getElem?_eq_some_iff.1 hs
  rw [setStream, List.set_getElem_self]

/-- The loop ends with its list. -/
theorem Walked.nil {result : Result V E} {done : List Nat} {t : Task σ} (h : t.subscribers = done) :
    Walked M result done [] t t where
  users := rfl
  finished := rfl
  length := rfl
  stream id s hs := ⟨s, hs, by simp [visited]⟩
  kept := ⟨[], by simpa using h, List.Sublist.refl _, fun id hid => by cases hid⟩

/-- A round that leaves its subscriber in the list. -/
theorem Walked.round {result : Result V E} {done rest : List Nat} {t t' : Task σ} {x : Nat}
    {s s' : σ} (hs : t.streams[x]? = some s) (hhere : M.receiveClosed s = false)
    (hhere' : M.receiveClosed s' = false) (hgets : Gets M result s s') (hx : x ∉ rest)
    (h : Walked M result (done ++ [x]) rest (t.setStream x s') t') :
    Walked M result done (x :: rest) t t' where
  users := h.users
  finished := h.finished
  length := h.length.trans (List.length_set ..)
  stream id r hr := by
    have hbroken := broken_setStream (M := M) hs (hhere'.trans hhere.symm)
    rw [visited_cons_of_not ((broken_eq hs).trans hhere)]
    by_cases hid : id = x
    · -- `x` is not among the rest, so this round is the only one that sends to it
      subst hid
      obtain ⟨hlt, -⟩ := List.getElem?_eq_some_iff.1 hs
      obtain ⟨r', hr', hout⟩ := h.stream id s' (List.getElem?_set_self hlt)
      rw [if_neg fun hmem => hx (visited_subset _ _ hmem)] at hout
      cases hs.symm.trans hr
      exact ⟨r', hr', by rw [if_pos List.mem_cons_self, hout]; exact hgets⟩
    · obtain ⟨r', hr', hout⟩ := h.stream id r ((List.getElem?_set_ne (Ne.symm hid)).trans hr)
      rw [hbroken] at hout
      refine ⟨r', hr', ?_⟩
      simpa only [List.mem_cons, or_iff_right hid] using hout
  -- who is kept of the rest is kept, and `x` is open and stays
  kept := by
    obtain ⟨kept, hsubs, hsub, hkeeps⟩ := h.kept
    rw [broken_setStream (M := M) hs (hhere'.trans hhere.symm)] at hkeeps
    refine ⟨x :: kept, by simpa using hsubs, hsub.cons_cons x, fun id hid hin => ?_⟩
    rcases List.mem_cons.1 hid with rfl | hid
    · exact List.mem_cons_self
    · exact List.mem_cons_of_mem _ (hkeeps id hid hin)

/-- A round that deletes its subscriber is the last one. -/
theorem Walked.deleteLast {result : Result V E} {done : List Nat} {t : Task σ} {x : Nat}
    (hx : t.broken M x = true) {s : σ} (hs : t.streams[x]? = some s) :
    Walked M result done [x] t { t with subscribers := done } where
  users := rfl
  finished := rfl
  length := rfl
  stream id r hr := by
    refine ⟨r, hr, ?_⟩
    split
    · rename_i hmem
      obtain rfl : id = x := by simpa [visited] using hmem
      cases hs.symm.trans hr
      have hgone : M.receiveClosed s = true := (broken_eq hs).symm.trans hx
      simp [Gets, MemoryStreams.live, hgone]
    · rfl
  kept := by
    refine ⟨[], by simp, List.nil_sublist _, fun id hid hin => ?_⟩
    obtain rfl : id = x := by simpa using hid
    rw [hx] at hin
    cases hin

/-- A round that deletes its subscriber, and the next one that is skipped. -/
theorem Walked.delete {result : Result V E} {done rest : List Nat} {t t' : Task σ} {x y : Nat}
    (hx : t.broken M x = true) {s : σ} (hs : t.streams[x]? = some s) (hxy : x ∉ y :: rest)
    (hy : y ∉ rest)
    (h : Walked M result (done ++ [y]) rest { t with subscribers := done ++ y :: rest } t') :
    Walked M result done (x :: y :: rest) t t' where
  users := h.users
  finished := h.finished
  length := h.length
  stream id r hr := by
    obtain ⟨r', hr', hout⟩ := h.stream id r hr
    refine ⟨r', hr', ?_⟩
    have hout' : if id ∈ visited (t.broken M) rest then Gets M result r r' else r' = r := hout
    rw [visited, if_pos hx]
    -- `x` has left the list in its own round, and `y` has taken its place
    by_cases hid : id = x
    · subst hid
      cases hs.symm.trans hr
      have hgone : M.receiveClosed s = true := (broken_eq hs).symm.trans hx
      have hmem : id ∉ visited (t.broken M) rest := fun hmem =>
        hxy (List.mem_cons_of_mem _ (visited_subset _ _ hmem))
      rw [if_neg hmem] at hout'
      simp [Gets, MemoryStreams.live, hgone, hout']
    · simpa only [List.mem_cons, or_iff_right hid] using hout'
  kept := by
    obtain ⟨kept, hsubs, hsub, hkeeps⟩ := h.kept
    refine ⟨y :: kept, by simpa using hsubs, (hsub.cons_cons y).cons x, fun id hid hin => ?_⟩
    -- `x` was broken, so nobody expects it to be kept; `y` was passed over and stays
    rcases List.mem_cons.1 hid with rfl | hid
    · rw [hx] at hin
      cases hin
    · rcases List.mem_cons.1 hid with rfl | hid
      · exact List.mem_cons_self
      · exact List.mem_cons_of_mem _ (hkeeps id hid hin)

/-- The loop publishes to every subscriber that is left. -/
theorem publishLoop_walked (hM : M.Documented) (result : Result V E) (fuel : Nat)
    (done rest : List Nat)
    {t : Task σ} (hfuel : rest.length ≤ fuel) (hsubs : t.subscribers = done ++ rest)
    (hopen : ∀ s ∈ t.streams, M.sendClosed s = false) (hnodup : rest.Nodup)
    (hvalid : ∀ id ∈ rest, id < t.streams.length) :
    ∃ t', publishLoop M result fuel done.length t = (t', none) ∧
      Walked M result done rest t t' := by
  induction fuel generalizing done rest t with
  | zero =>
    obtain rfl : rest = [] := List.eq_nil_of_length_eq_zero (Nat.le_zero.1 hfuel)
    exact ⟨t, rfl, .nil (by simpa using hsubs)⟩
  | succ fuel ih =>
    cases rest with
    | nil =>
      refine ⟨t, ?_, .nil (by simpa using hsubs)⟩
      simp [publishLoop, hsubs]
    | cons x rest =>
      have hget : t.subscribers[done.length]? = some x := by simp [hsubs]
      obtain ⟨s, hs⟩ : ∃ s, t.streams[x]? = some s :=
        ⟨_, List.getElem?_eq_getElem (hvalid x List.mem_cons_self)⟩
      have hsend : M.sendClosed s = false := hopen s (List.mem_of_getElem? hs)
      obtain ⟨hx, hrest⟩ := List.nodup_cons.1 hnodup
      have hvalid' : ∀ id ∈ rest, id < t.streams.length :=
        fun id hid => hvalid id (List.mem_cons_of_mem _ hid)
      rw [publishLoop, hget]
      simp only [hs]
      cases hgone : M.receiveClosed s with
      | true =>
        -- the entry behind `x` moves to its position, and the next round is behind that one
        rw [hM.broken s result hsend hgone]
        have herase : t.subscribers.eraseIdx done.length = done ++ rest := by
          rw [hsubs, List.eraseIdx_append_of_length_le (Nat.le_refl _), Nat.sub_self]
          rfl
        rw [herase]
        have hbroken : t.broken M x = true := (broken_eq hs).trans hgone
        cases rest with
        | nil =>
          refine ⟨_, ?_, .deleteLast hbroken hs⟩
          cases fuel <;> simp [publishLoop]
        | cons y rest =>
          obtain ⟨hy, hrest'⟩ := List.nodup_cons.1 hrest
          obtain ⟨t', hloop, hwalked⟩ := ih (done ++ [y]) rest
            (t := { t with subscribers := done ++ y :: rest })
              (by simp at hfuel; omega) (by simp) hopen
            hrest' (fun id hid => hvalid' id (List.mem_cons_of_mem _ hid))
          refine ⟨t', ?_, hwalked.delete hbroken hs hx hy⟩
          simpa using hloop
      | false =>
        cases hfull : M.full s with
        | true =>
          -- a full stream misses the result, and the list stays as it is
          rw [hM.blocked s result hsend hgone hfull]
          obtain ⟨t', hloop, hwalked⟩ := ih (done ++ [x]) rest (t := t)
            (by simpa using hfuel) (by simpa using hsubs) hopen hrest hvalid'
          refine ⟨t', by simpa using hloop, Walked.round hs hgone hgone ?_ hx ?_⟩
          · simp [Gets, MemoryStreams.live, hfull]
          · rw [setStream_self hs]
            exact hwalked
        | false =>
          obtain ⟨s', hsent, hopen', hhere', haccepted⟩ := hM.sent s result hsend hgone hfull
          rw [hsent]
          have hopenAll : ∀ r ∈ (t.setStream x s').streams, M.sendClosed r = false := by
            intro r hr
            rcases List.mem_or_eq_of_mem_set hr with hr | rfl
            · exact hopen r hr
            · exact hopen'
          have hvalidAll : ∀ id ∈ rest, id < (t.setStream x s').streams.length := by
            intro id hid
            rw [setStream, List.length_set]
            exact hvalid' id hid
          obtain ⟨t', hloop, hwalked⟩ := ih (done ++ [x]) rest
            (t := t.setStream x s') (by simpa using hfuel)
              (by simpa [setStream] using hsubs) hopenAll
            hrest hvalidAll
          refine ⟨t', by simpa using hloop, Walked.round hs hgone hhere' ?_ hx hwalked⟩
          simp [Gets, MemoryStreams.live, hgone, hfull, hopen', hhere', haccepted]

/-- The loop changes neither the users, nor which streams there are. -/
theorem publishLoop_frame (result : Result V E) (fuel i : Nat) (t : Task σ) :
    (publishLoop M result fuel i t).1.users = t.users ∧
      (publishLoop M result fuel i t).1.finished = t.finished ∧
        (publishLoop M result fuel i t).1.streams.length = t.streams.length := by
  induction fuel generalizing i t with
  | zero => exact ⟨rfl, rfl, rfl⟩
  | succ fuel ih =>
    rw [publishLoop]
    cases t.subscribers[i]? with
    | none => exact ⟨rfl, rfl, rfl⟩
    | some id =>
      cases hs : t.streams[id]? with
      | none => simpa only [hs] using ih (i + 1) t
      | some s =>
        simp only [hs]
        cases M.sendNowait s result with
        | ok s' =>
          obtain ⟨husers, hfinished, hlength⟩ := ih (i + 1) (t.setStream id s')
          exact ⟨husers, hfinished, hlength.trans (List.length_set ..)⟩
        | error e =>
          cases e with
          | closedResource => exact ⟨rfl, rfl, rfl⟩
          | brokenResource => exact ih _ _
          | wouldBlock => exact ih _ _

/-- `_publish_result` on open streams does not raise. -/
theorem publishResult_walked (hM : M.Documented) {t : Task σ} (h : Open M t) (result : Result V E) :
    ∃ t', t.publishResult M result = (t', none) ∧ Walked M result [] t.subscribers t t' :=
  publishLoop_walked hM result t.subscribers.length [] t.subscribers (Nat.le_refl _) rfl h.sending
    h.nodup h.valid

/-- Where the loop raises, the streams had been closed before. -/
theorem publishLoop_raises (hM : M.Documented) (result : Result V E) (fuel i : Nat) {t t' : Task σ}
    {e : SendError} (h : publishLoop M result fuel i t = (t', some e)) :
    ∃ s ∈ t.streams, M.sendClosed s = true := by
  by_contra hnone
  have hopen : ∀ s ∈ t.streams, M.sendClosed s = false := by
    intro s hs
    cases hclosed : M.sendClosed s with
    | false => rfl
    | true => exact absurd ⟨s, hs, hclosed⟩ hnone
  clear hnone
  -- every round leaves the streams open at the sending end
  induction fuel generalizing i t with
  | zero => simp [publishLoop] at h
  | succ fuel ih =>
    rw [publishLoop] at h
    cases hid : t.subscribers[i]? with
    | none => simp [hid] at h
    | some id =>
      cases hs : t.streams[id]? with
      | none =>
        simp only [hid, hs] at h
        exact ih _ h hopen
      | some s =>
        have hsend : M.sendClosed s = false := hopen s (List.mem_of_getElem? hs)
        simp only [hid, hs] at h
        cases hgone : M.receiveClosed s with
        | true =>
          rw [hM.broken s result hsend hgone] at h
          exact ih _ h hopen
        | false =>
          cases hfull : M.full s with
          | true =>
            rw [hM.blocked s result hsend hgone hfull] at h
            exact ih _ h hopen
          | false =>
            obtain ⟨s', hsent, hopen', -⟩ := hM.sent s result hsend hgone hfull
            rw [hsent] at h
            refine ih _ h fun r hr => ?_
            rcases List.mem_or_eq_of_mem_set hr with hr | rfl
            · exact hopen r hr
            · exact hopen'

end Task

end LocalPost.Scheduler
