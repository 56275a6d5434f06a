import LocalPost.Http.Base.Shutdown

/-!
# What the shutdown leaves behind

`Ok` follows every connection that was handed over and is open: it is `Attached` (in the map or
among the connections the walk has left, or, before the drain is over, in the queue or with a call
at its append) or `Pending` (a call for it has yet to close it or to attach it). Timely steps keep
`Ok` (`Ok.step`), and in the end neither is possible without a call in progress, so nothing is left
open. The first step of the shutdown phase that is not timely leads to a write to the closed pipe
(`untimely_strays`): the bad order is a call that has passed its test before the flag and goes on
after the pipe is closed, and it leaks its connection as well (`late_track_leaks`).
-/

set_option autoImplicit false

namespace LocalPost.Http.Base

open LocalPost.Core

namespace Shutdown

variable {s s' : Shutdown} {c i : Nat} {k : Call}

/-! ## The keys of the map -/

section Keys

variable {sel sel' : Selector} {d fd : Nat}

theorem listed_unregister : Listed (sel.unregister fd) d ↔ Listed sel d ∧ sel.fd d ≠ fd := by
  simp only [Listed, Selector.fd_unregister, Selector.map_unregister]
  split
  · rename_i heq
    simp [heq]
  · rename_i hne
    exact (and_iff_left hne).symm

/-- An applied operation lists an open connection, and takes the key only from one that the
condition spares. -/
theorem listed_applyTrack (hi : Selector.Inv sel) (hspares : Spares sel (sel.fd c) c)
    (hopen : sel.isOpen d = true) (h : d = c ∨ Listed sel d) : Listed (sel.applyTrack c) d := by
  -- another connection has its key under another descriptor, which stays as it is
  have hself : ∀ {kernel : Nat → Bool} {k : Key}, k.data = c → Listed sel d → d ≠ c →
      (∀ key ∈ sel.map (sel.fd c), key.data = c ∨ sel.isOpen key.data = false) →
      Listed { sel with map := Function.update sel.map (sel.fd c) (some k), kernel := kernel }
          d := by
    rintro kernel k hdata ⟨key, hkey, rfl⟩ hne hsp
    refine ⟨key, ?_, rfl⟩
    -- the key under the descriptor of `c` is its own, or stands for a closed connection
    have hf : sel.fd key.data ≠ sel.fd c := by
      intro hf
      rcases hsp key (hf ▸ hkey) with h | h
      · exact hne h
      · cases hopen.symm.trans h
    exact (Function.update_of_ne hf _ _).trans hkey
  by_cases hdc : d = c
  · subst hdc
    -- an open connection is registered by its own track, in one way or the other
    obtain ⟨-, -, heq⟩ | ⟨key, -, -, heq⟩ | ⟨hclosed, -⟩ := Selector.applyTrack_cases hi d
    · rw [heq]
      exact ⟨⟨d, d⟩, Function.update_self _ _ _, rfl⟩
    · rw [heq]
      exact ⟨{ key with data := d }, Function.update_self _ _ _, rfl⟩
    · cases hopen.symm.trans hclosed
  · have hlisted := h.resolve_left hdc
    obtain ⟨-, -, heq⟩ | ⟨key, -, -, heq⟩ | ⟨-, heq⟩ := Selector.applyTrack_cases hi c
    · rw [heq]
      exact hself rfl hlisted hdc hspares
    · rw [heq]
      exact hself rfl hlisted hdc hspares
    · rw [heq]
      simpa [Listed] using hlisted

end Keys

/-! ## The invariant -/

/-- Connection `c` is in the map, or still in the queue, or about to be queued. -/
inductive Attached (s : Shutdown) (c : Nat) : Prop
  | registered (h : s.Registered c)
  | queued (hearly : s.Early) (h : Op.track c ∈ s.sel.ops)
  | appending (hearly : s.Early) (k : Call) (hk : k ∈ s.calls) (hconn : k.conn = c)
      (hmethod : k.method ≠ .close) (hpc : k.pc = .append)

/-- The call is going to close its connection, or has yet to test or set `tracked`. -/
def awaits (s : Shutdown) : Pc → Prop
  | .check => True
  | .reject => True
  | .test => True
  | .closeMark => True
  | .closeSock _ => True
  | .mark => s.Early
  | _ => False

/-- A call for `c` awaits its decision. -/
def Pending (s : Shutdown) (c : Nat) : Prop :=
  ∃ k ∈ s.calls, k.conn = c ∧ s.awaits k.pc

/-- The invariant of a run whose steps are timely. -/
structure Ok (s : Shutdown) : Prop where
  base : Selector.Inv s.sel
  fresh : ∀ c, s.sel.next ≤ c → s.handed c = false
  calls : ∀ k ∈ s.calls, k.conn < s.sel.next ∧
    (k.pc = .check ∨ k.pc = .test ∨ k.pc = .mark → k.method ≠ .close)
  tracked : ∀ c, s.sel.isOpen c = true → s.sel.tracked c = true → s.Attached c
  held : ∀ c, s.sel.isOpen c = true → s.handed c = true → s.Attached c ∨ s.Pending c
  late : ¬s.Early → ∀ k ∈ s.calls, k.pc = .mark ∨ k.pc = .append ∧ k.method ≠ .close →
    s.sel.isOpen k.conn = true → s.Registered k.conn
  quiet : s.stage = .finished → ∀ k ∈ s.calls, k.pc.writes = false
  noStray : s.stray = false

namespace Ok

theorem start : Ok Shutdown.start where
  base := Selector.inv_start
  fresh c _ := rfl
  calls k h := by cases h
  tracked c h := by cases h
  held c h := by cases h
  late _ k h := by cases h
  quiet _ k h := by cases h
  noStray := rfl

/-- After the shutdown neither the map nor the queue holds anything, so a call does. -/
theorem sound (hi : Ok s) : s.Sound := by
  refine ⟨fun hfinished c hhanded hdone => ?_, hi.noStray⟩
  have hlate : ¬s.Early := by
    rintro (h | h)
    · cases hfinished.symm.trans h
    · cases hfinished.symm.trans h
  rw [← Bool.not_eq_true]
  intro hopen
  rcases hi.held c hopen hhanded with hatt | ⟨k, hk, hconn, hawaits⟩
  · cases hatt with
    | registered h => simp [Registered, hfinished] at h
    | queued hearly => exact hlate hearly
    | appending hearly => exact hlate hearly
  · rw [hdone k hk hconn] at hawaits
    exact hawaits

end Ok

/-! ## Steps of the calls -/

/-- What a step of a call leaves alone: the map and the descriptors stay, the queue only grows, and
no socket is opened. -/
structure Mild (sel sel' : Selector) : Prop where
  map : sel'.map = sel.map
  next : sel'.next = sel.next
  fd : ∀ c, sel'.fd c = sel.fd c
  ops : ∀ op ∈ sel.ops, op ∈ sel'.ops
  isOpen : ∀ c, sel'.isOpen c = true → sel.isOpen c = true

theorem Mild.refl (sel : Selector) : Mild sel sel :=
  ⟨rfl, rfl, fun _ => rfl, fun _ h => h, fun _ h => h⟩

theorem Mild.setTracked (sel : Selector) (c : Nat) (b : Bool) : Mild sel (sel.setTracked c b) :=
  ⟨rfl, rfl, by simp, fun _ h => h, by simp⟩

theorem Mild.sockClose (sel : Selector) (c : Nat) : Mild sel (sel.sockClose c) := by
  refine ⟨by simp, by simp, by simp, by simp, fun d hd => ?_⟩
  rw [Selector.isOpen_sockClose] at hd
  split at hd
  · cases hd
  · exact hd

theorem Mild.append (sel : Selector) (op : Op) :
    Mild sel { sel with ops := sel.ops ++ [op] } :=
  ⟨rfl, rfl, fun _ => rfl, fun _ h => List.mem_append_left _ h, fun _ h => h⟩

theorem Mild.listed {sel sel' : Selector} (h : Mild sel sel') : Listed sel' c ↔ Listed sel c := by
  simp only [Listed, h.map, h.fd]

section Moved

variable {sel' : Selector} {pc : Pc}

theorem registered_moved (hmild : Mild s.sel sel') :
    (s.moved i k sel' pc).Registered c ↔ s.Registered c := by
  simp only [Registered, moved]
  cases s.stage with
  | walking left => exact Iff.rfl
  | finished => exact Iff.rfl
  | running => exact hmild.listed
  | draining => exact hmild.listed
  | drained => exact hmild.listed

/-- An entry of the calls other than the one that moves stays. -/
theorem mem_moved (hk : s.calls[i]? = some k) {j : Call} (hj : j ∈ s.calls) :
    j ∈ (s.moved i k sel' pc).calls ∨ j = k := by
  obtain ⟨n, hn⟩ := List.getElem?_of_mem hj
  by_cases hni : i = n
  · subst hni
    cases hk.symm.trans hn
    exact .inr rfl
  · have hset : (s.moved i k sel' pc).calls[n]? = some j := by
      refine (getElem?_set_iff hk).2 ?_
      rw [if_neg hni]
      exact hn
    exact .inl (List.mem_of_getElem? hset)

theorem self_mem_moved (hk : s.calls[i]? = some k) :
    { k with pc := pc } ∈ (s.moved i k sel' pc).calls := by
  have hset : (s.moved i k sel' pc).calls[i]? = some { k with pc := pc } := by
    refine (getElem?_set_iff hk).2 ?_
    rw [if_pos rfl]
  exact List.mem_of_getElem? hset

theorem of_mem_moved (hk : s.calls[i]? = some k) {j : Call}
    (hj : j ∈ (s.moved i k sel' pc).calls) : j ∈ s.calls ∨ j = { k with pc := pc } := by
  obtain ⟨n, hn⟩ := List.getElem?_of_mem hj
  have hset := (getElem?_set_iff hk).1 hn
  split at hset
  · exact .inr hset.symm
  · exact .inl (List.mem_of_getElem? hset)

/-- A connection stays attached, unless the call that moves was the one at its append. -/
theorem Attached.moved (h : s.Attached c) (hk : s.calls[i]? = some k) (hmild : Mild s.sel sel')
    (happend : k.conn = c → k.pc = .append → k.method ≠ .close → Op.track c ∈ sel'.ops) :
    (s.moved i k sel' pc).Attached c := by
  cases h with
  | registered h => exact .registered ((registered_moved hmild).2 h)
  | queued hearly h => exact .queued hearly (hmild.ops _ h)
  | appending hearly j hj hconn hmethod hpc =>
    rcases mem_moved hk hj with hj | rfl
    · exact .appending hearly j hj hconn hmethod hpc
    · exact .queued hearly (happend hconn hpc hmethod)

/-- A connection stays pending, unless the call that moves was the one that awaits it. -/
theorem Pending.moved (h : s.Pending c) (hk : s.calls[i]? = some k) :
    (s.moved i k sel' pc).Pending c ∨ k.conn = c ∧ s.awaits k.pc := by
  obtain ⟨j, hj, hconn, hawaits⟩ := h
  rcases mem_moved hk hj with hj | rfl
  · exact .inl ⟨j, hj, hconn, hawaits⟩
  · exact .inr ⟨hconn, hawaits⟩

/-- A step of a call: only its own connection needs an argument. -/
theorem Ok.moved (hi : Ok s) (hk : s.calls[i]? = some k) (hbase : Selector.Inv sel')
    (hmild : Mild s.sel sel') (htracked : ∀ c, c ≠ k.conn → sel'.tracked c = s.sel.tracked c)
    (hfresh : ∀ c, s.sel.next ≤ c → (s.moved i k sel' pc).handed c = false)
    (hmethod : pc = .check ∨ pc = .test ∨ pc = .mark → k.method ≠ .close)
    (hself : sel'.isOpen k.conn = true → sel'.tracked k.conn = true →
      (s.moved i k sel' pc).Attached k.conn)
    (hheld : sel'.isOpen k.conn = true → (s.moved i k sel' pc).handed k.conn = true →
      (s.moved i k sel' pc).Attached k.conn ∨ (s.moved i k sel' pc).Pending k.conn)
    (hlate : ¬s.Early → pc = .mark ∨ pc = .append ∧ k.method ≠ .close →
      sel'.isOpen k.conn = true → s.Registered k.conn)
    (hquiet : s.stage = .finished → pc.writes = false ∧ k.pc ≠ .wake) :
    Ok (s.moved i k sel' pc) := by
  have hhanded : ∀ c, c ≠ k.conn → (s.moved i k sel' pc).handed c = s.handed c := by
    intro c hc
    simp only [Shutdown.moved]
    split
    · exact Function.update_of_ne hc _ _
    · rfl
  refine ⟨hbase, fun c hc => ?_, fun j hj => ?_, fun c hopen ht => ?_, fun c hopen hh => ?_,
    fun hl j hj hpc hopen => ?_, fun hfinished j hj => ?_, ?_⟩
  · exact hfresh c (hmild.next ▸ hc)
  · rw [show (s.moved i k sel' pc).sel.next = s.sel.next from hmild.next]
    rcases of_mem_moved hk hj with hj | rfl
    · exact hi.calls j hj
    · exact ⟨(hi.calls k (List.mem_of_getElem? hk)).1, hmethod⟩
  -- Another connection is as tracked as before, and attached as before.
  · by_cases hc : c = k.conn
    · subst hc
      exact hself hopen ht
    · refine (hi.tracked c (hmild.isOpen c hopen) ((htracked c hc).symm.trans ht)).moved hk hmild ?_
      exact fun heq => absurd heq.symm hc
  · by_cases hc : c = k.conn
    · subst hc
      exact hheld hopen hh
    · rcases hi.held c (hmild.isOpen c hopen) ((hhanded c hc).symm.trans hh) with hatt | hpend
      · exact .inl (hatt.moved hk hmild fun heq => absurd heq.symm hc)
      · rcases hpend.moved hk with hpend | ⟨heq, -⟩
        · exact .inr hpend
        · exact absurd heq.symm hc
  · refine (registered_moved hmild).2 ?_
    rcases of_mem_moved hk hj with hj | rfl
    · exact hi.late hl j hj hpc (hmild.isOpen _ hopen)
    · exact hlate hl hpc hopen
  · rcases of_mem_moved hk hj with hj | rfl
    · exact hi.quiet hfinished j hj
    · exact (hquiet hfinished).1
  · simp only [Shutdown.moved, hi.noStray, Bool.false_or, Bool.and_eq_false_iff,
      decide_eq_false_iff_not]
    by_cases hfinished : s.stage = .finished
    · exact .inl (hquiet hfinished).2
    · exact .inr hfinished

end Moved

/-- A new `track` or `post_track` hands its connection over, and a new `close` changes nothing
yet. -/
theorem Ok.call (hi : Ok s) {m : Method} (h : s.call m c = some s') : Ok s' := by
  -- One call more, before its first step: what was attached stays so.
  have hmore : ∀ (k : Call) (handed : Nat → Bool), k.conn < s.sel.next →
      (k.pc = .check ∧ k.method ≠ .close) ∨ k.pc = .closeMark →
      (∀ d, s.sel.next ≤ d → handed d = false) →
      (∀ d, handed d = true → s.handed d = true ∨ d = k.conn) →
      Ok { s with calls := s.calls ++ [k], handed := handed } := by
    intro k handed hlt hpc hfresh hhanded
    have hatt : ∀ d, s.Attached d →
        Attached { s with calls := s.calls ++ [k], handed := handed } d := by
      intro d hd
      cases hd with
      | registered h => exact .registered h
      | queued hearly h => exact .queued hearly h
      | appending hearly j hj hconn hmethod hpc =>
        exact .appending hearly j (List.mem_append_left _ hj) hconn hmethod hpc
    refine ⟨hi.base, hfresh, fun j hj => ?_, fun d ho ht => hatt d (hi.tracked d ho ht),
      fun d ho hh => ?_, fun hl j hj hjpc hopen => ?_, fun hfinished j hj => ?_, hi.noStray⟩
    · rcases List.mem_append.1 hj with hj | hj
      · exact hi.calls j hj
      · rw [List.mem_singleton] at hj
        subst hj
        refine ⟨hlt, fun h => ?_⟩
        rcases hpc with ⟨-, hmethod⟩ | hpc
        · exact hmethod
        · simp [hpc] at h
    · rcases hhanded d hh with hh | rfl
      · rcases hi.held d ho hh with hatt' | ⟨j, hj, hconn, hawaits⟩
        · exact .inl (hatt d hatt')
        · exact .inr ⟨j, List.mem_append_left _ hj, hconn, hawaits⟩
      · refine .inr ⟨k, List.mem_append_right _ (List.mem_singleton.2 rfl), rfl, ?_⟩
        rcases hpc with ⟨hpc, -⟩ | hpc
        · rw [hpc]
          trivial
        · rw [hpc]
          trivial
    · rcases List.mem_append.1 hj with hj | hj
      · exact hi.late hl j hj hjpc hopen
      · rw [List.mem_singleton] at hj
        subst hj
        rcases hpc with ⟨hpc, -⟩ | hpc
        · simp [hpc] at hjpc
        · simp [hpc] at hjpc
    · rcases List.mem_append.1 hj with hj | hj
      · exact hi.quiet hfinished j hj
      · rw [List.mem_singleton] at hj
        subst hj
        rcases hpc with ⟨hpc, -⟩ | hpc
        · rw [hpc]
          rfl
        · rw [hpc]
          rfl
  unfold Shutdown.call at h
  split at h
  · rename_i hlt
    split at h
    -- `close`: nobody is handed over.
    · cases h
      exact hmore _ _ hlt (.inr rfl) hi.fresh fun d hd => .inl hd
    · rename_i hm
      cases h
      refine hmore _ _ hlt (.inl ⟨rfl, hm⟩) (fun d hd => ?_) (fun d hd => ?_)
      · rw [Function.update_of_ne (Nat.ne_of_gt (Nat.lt_of_lt_of_le hlt hd))]
        exact hi.fresh d hd
      · by_cases hdc : d = c
        · exact .inr hdc
        · rw [Function.update_of_ne hdc] at hd
          exact .inl hd
  · cases h

/-- Every timely step of a call keeps the invariant. -/
theorem Ok.advance (hi : Ok s) (h : s.advance i = some s') (htimely : s.Timely (.advance i)) :
    Ok s' := by
  obtain ⟨k, hk, h⟩ := Option.bind_eq_some_iff.1 h
  obtain ⟨⟨sel', pc⟩, hnext, rfl⟩ := Option.map_eq_some_iff.1 h
  obtain ⟨htest, hclose⟩ := htimely k hk
  have hmem := List.mem_of_getElem? hk
  obtain ⟨hbound, hmethod⟩ := hi.calls k hmem
  -- A call that is not at its mark hands nothing over.
  have hfresh : k.pc ≠ .mark → ∀ c, s.sel.next ≤ c → (s.moved i k sel' pc).handed c = false := by
    intro hne c hc
    simp only [Shutdown.moved, if_neg hne]
    exact hi.fresh c hc
  have hhanded : k.pc ≠ .mark → (s.moved i k sel' pc).handed k.conn = true →
      s.handed k.conn = true := by
    intro hne hh
    simpa only [Shutdown.moved, if_neg hne] using hh
  -- The connection stays attached unless the call is at its append.
  have hatt : k.pc ≠ .append → Mild s.sel sel' → s.Attached k.conn →
      (s.moved i k sel' pc).Attached k.conn :=
    fun hne hmild h => h.moved hk hmild fun _ happ => absurd happ hne
  -- It is pending when the call awaits its decision at the new point.
  have hpend : s.awaits pc → (s.moved i k sel' pc).Pending k.conn :=
    fun h => ⟨{ k with pc := pc }, self_mem_moved hk, rfl, h⟩
  -- A point that awaited nothing was not what kept it.
  have hkept : k.pc ≠ .append → k.pc ≠ .mark → ¬s.awaits k.pc → Mild s.sel sel' →
      s.sel.isOpen k.conn = true → (s.moved i k sel' pc).handed k.conn = true →
      (s.moved i k sel' pc).Attached k.conn ∨ (s.moved i k sel' pc).Pending k.conn := by
    intro happ hmark hnot hmild hopen hh
    rcases hi.held k.conn hopen (hhanded hmark hh) with h | h
    · exact .inl (hatt happ hmild h)
    · exact .inr ((h.moved hk).resolve_right fun hp => hnot hp.2)
  have hrefl := Mild.refl s.sel
  simp only [Shutdown.next] at hnext
  cases hpc : k.pc with
  | check =>
    simp only [hpc] at hnext hatt hfresh
    split at hnext
    · rename_i hrunning
      cases hnext
      refine hi.moved hk hi.base hrefl (fun _ _ => rfl) (hfresh (by simp))
        (fun _ => hmethod (.inl hpc))
        (fun ho ht => hatt (by simp) hrefl (hi.tracked _ ho ht)) (fun _ _ => .inr (hpend ?_))
        (fun hlate => absurd (.inl hrunning) hlate) (fun hf => ?_)
      · split
        · trivial
        · exact .inl hrunning
      · cases hrunning.symm.trans hf
    · cases hnext
      exact hi.moved hk hi.base hrefl (fun _ _ => rfl) (hfresh (by simp)) (by simp)
        (fun ho ht => hatt (by simp) hrefl (hi.tracked _ ho ht)) (fun _ _ => .inr (hpend trivial))
        (fun _ h => (by simp at h)) (fun _ => ⟨rfl, by simp [hpc]⟩)
  | reject =>
    simp only [hpc, Option.some.injEq, Prod.mk.injEq] at hnext
    obtain ⟨rfl, rfl⟩ := hnext
    have hclosed : (s.sel.sockClose k.conn).isOpen k.conn ≠ true := by
      rw [Selector.isOpen_sockClose, if_pos rfl]
      simp
    exact hi.moved hk (hi.base.sockClose _) (.sockClose _ _) (fun _ _ => by simp)
      (hfresh (by simp [hpc])) (by simp) (fun ho => absurd ho hclosed) (fun ho => absurd ho hclosed)
      (fun _ h => (by simp at h)) (fun _ => ⟨rfl, by simp [hpc]⟩)
  | untrack =>
    simp only [hpc, Option.some.injEq, Prod.mk.injEq] at hnext
    obtain ⟨rfl, rfl⟩ := hnext
    have hmild := Mild.setTracked s.sel k.conn false
    refine hi.moved hk (hi.base.setTracked _ _) hmild (fun c hc => ?_) (hfresh (by simp [hpc]))
      (by simp) (fun _ ht => ?_) (fun ho hh => ?_) (fun _ h => (by simp at h))
        (fun _ => ⟨rfl, by simp [hpc]⟩)
    · rw [Selector.tracked_setTracked, if_neg hc]
    · rw [Selector.tracked_setTracked, if_pos rfl] at ht
      cases ht
    · exact hkept (by simp [hpc]) (by simp [hpc]) (by simp [hpc, awaits]) hmild
        (hmild.isOpen _ ho) hh
  | test =>
    simp only [hpc, Option.some.injEq, Prod.mk.injEq] at hnext
    obtain ⟨rfl, rfl⟩ := hnext
    have hkeep : s.sel.isOpen k.conn = true → s.sel.tracked k.conn = true →
        (s.moved i k s.sel (if s.sel.tracked k.conn then .done else .mark)).Attached k.conn :=
      fun ho ht => hatt (by simp [hpc]) hrefl (hi.tracked _ ho ht)
    refine hi.moved hk hi.base hrefl (fun _ _ => rfl) (hfresh (by simp [hpc]))
      (fun _ => hmethod (.inr (.inl hpc))) hkeep
      (fun ho hh => ?_) (fun hlate h ho => ?_) (fun hf => ⟨?_, by simp [hpc]⟩)
    · by_cases ht : s.sel.tracked k.conn = true
      · exact .inl (hkeep ho ht)
      · rw [if_neg ht] at hpend ⊢
        by_cases hearly : s.Early
        · exact .inr (hpend hearly)
        · rcases htest hpc hearly with h | ⟨-, hclosed | hreg⟩
          · exact absurd h ht
          · cases hclosed.symm.trans ho
          · exact .inl (.registered ((registered_moved hrefl).2 hreg))
    · by_cases ht : s.sel.tracked k.conn = true
      · rw [if_pos ht] at h
        simp at h
      · rcases htest hpc hlate with h | ⟨-, hclosed | hreg⟩
        · exact absurd h ht
        · cases hclosed.symm.trans ho
        · exact hreg
    · have hlate : ¬s.Early := by simp [Early, hf]
      rcases htest hpc hlate with ht | ⟨hne, -⟩
      · rw [if_pos ht]
        rfl
      · exact absurd hf hne
  | mark =>
    simp only [hpc, Option.some.injEq, Prod.mk.injEq] at hnext
    obtain ⟨rfl, rfl⟩ := hnext
    have hmild := Mild.setTracked s.sel k.conn true
    have hnew : (s.sel.setTracked k.conn true).isOpen k.conn = true →
        (s.moved i k (s.sel.setTracked k.conn true) .append).Attached k.conn := by
      intro ho
      by_cases hearly : s.Early
      · exact .appending hearly _ (self_mem_moved hk) rfl (hmethod (.inr (.inr hpc))) rfl
      · exact .registered ((registered_moved hmild).2
          (hi.late hearly k hmem (.inl hpc) (hmild.isOpen _ ho)))
    refine hi.moved hk (hi.base.setTracked _ _) hmild (fun c hc => ?_) (fun c hc => ?_) (by simp)
      (fun ho _ => hnew ho) (fun ho _ => .inl (hnew ho))
      (fun hlate _ ho => hi.late hlate k hmem (.inl hpc) (hmild.isOpen _ ho)) (fun hf => ?_)
    · rw [Selector.tracked_setTracked, if_neg hc]
    · simp only [Shutdown.moved, if_pos hpc]
      rw [Function.update_of_ne (Nat.ne_of_gt (Nat.lt_of_lt_of_le hbound hc))]
      exact hi.fresh c hc
    · have hq := hi.quiet hf k hmem
      rw [hpc] at hq
      cases hq
  | append =>
    simp only [hpc, Option.some.injEq, Prod.mk.injEq] at hnext
    obtain ⟨rfl, rfl⟩ := hnext
    have hmild := Mild.append s.sel (s.opOf k)
    have hop : k.method ≠ .close → s.opOf k = .track k.conn := by
      intro hm
      unfold opOf
      cases hkm : k.method with
      | track => rfl
      | postTrack => rfl
      | close => exact absurd hkm hm
    have hkeep : s.Attached k.conn →
        (s.moved i k { s.sel with ops := s.sel.ops ++ [s.opOf k] } .wake).Attached k.conn :=
      fun h => h.moved hk hmild fun _ _ hm => by simp [hop hm]
    refine hi.moved hk (hi.base.of_eq rfl (fun _ => rfl) (fun _ => rfl) rfl rfl) hmild
      (fun _ _ => rfl) (hfresh (by simp [hpc])) (by simp) (fun ho ht => hkeep (hi.tracked _ ho ht))
      (fun ho hh => ?_) (fun _ h => (by simp at h)) (fun hf => ?_)
    · rcases hi.held k.conn ho (hhanded (by simp [hpc]) hh) with h | h
      · exact .inl (hkeep h)
      · refine .inr ((h.moved hk).resolve_right fun hp => ?_)
        rw [hpc] at hp
        exact hp.2
    · have hq := hi.quiet hf k hmem
      rw [hpc] at hq
      cases hq
  | wake =>
    simp only [hpc, Option.some.injEq, Prod.mk.injEq] at hnext
    obtain ⟨rfl, rfl⟩ := hnext
    refine hi.moved hk hi.base hrefl (fun _ _ => rfl) (hfresh (by simp [hpc])) (by simp)
      (fun ho ht => hatt (by simp [hpc]) hrefl (hi.tracked _ ho ht)) (fun ho hh => ?_)
      (fun _ h => (by simp at h)) (fun hf => ?_)
    · exact hkept (by simp [hpc]) (by simp [hpc]) (by simp [hpc, awaits]) hrefl ho hh
    · have hq := hi.quiet hf k hmem
      rw [hpc] at hq
      cases hq
  | closeMark =>
    simp only [hpc, Option.some.injEq, Prod.mk.injEq] at hnext
    obtain ⟨rfl, rfl⟩ := hnext
    refine hi.moved hk (hi.base.setTracked _ _) (.setTracked _ _ _) (fun c hc => ?_)
      (hfresh (by simp [hpc])) (by simp) (fun _ ht => ?_) (fun _ _ => .inr (hpend trivial))
      (fun _ h => (by simp at h)) (fun hf => ⟨hclose hpc hf, by simp [hpc]⟩)
    · rw [Selector.tracked_setTracked, if_neg hc]
    · rw [Selector.tracked_setTracked, if_pos rfl] at ht
      cases ht
  | closeSock wasTracked =>
    simp only [hpc, Option.some.injEq, Prod.mk.injEq] at hnext
    obtain ⟨rfl, rfl⟩ := hnext
    have hclosed : (s.sel.sockClose k.conn).isOpen k.conn ≠ true := by
      rw [Selector.isOpen_sockClose, if_pos rfl]
      simp
    refine hi.moved hk (hi.base.sockClose _) (.sockClose _ _) (fun _ _ => by simp)
      (hfresh (by simp [hpc])) (fun h => (by cases wasTracked <;> simp at h))
        (fun ho => absurd ho hclosed) (fun ho => absurd ho hclosed)
      (fun _ _ ho => absurd ho hclosed) (fun hf => ⟨?_, by simp [hpc]⟩)
    have hq := hi.quiet hf k hmem
    rw [hpc] at hq
    rw [show wasTracked = false from hq]
    rfl
  | done => simp [hpc] at hnext

/-! ## Steps of the loop -/

theorem registered_running (h : s.stage = .running) : s.Registered c ↔ Listed s.sel c := by
  simp only [Registered, h]

/-- A step of the selector's thread: what an open connection of its keeps, it keeps in the map or in
the queue. -/
theorem Ok.changeSel (hi : Ok s) {sel' : Selector} {handed' : Nat → Bool}
    (hrunning : s.stage = .running) (hbase : Selector.Inv sel')
    (hnext : sel'.next = s.sel.next) (hfresh : ∀ c, s.sel.next ≤ c → handed' c = false)
    (htracked : ∀ d, sel'.isOpen d = true → sel'.tracked d = true →
      Listed sel' d ∨ s.sel.isOpen d = true ∧ s.sel.tracked d = true)
    (hheld : ∀ d, sel'.isOpen d = true → handed' d = true →
      Listed sel' d ∨ s.sel.isOpen d = true ∧ s.handed d = true)
    (hlisted : ∀ d, sel'.isOpen d = true → sel'.tracked d = true ∨ handed' d = true →
      Listed s.sel d → Listed sel' d)
    (hops : ∀ d, sel'.isOpen d = true → Op.track d ∈ s.sel.ops →
      Op.track d ∈ sel'.ops ∨ Listed sel' d) : Ok { s with sel := sel', handed := handed' } := by
  have hreg : ∀ d, Registered { s with sel := sel', handed := handed' } d ↔ Listed sel' d :=
    fun d => registered_running hrunning
  -- the selector is still in its loop, so the queue will be drained
  have hearly : Early { s with sel := sel', handed := handed' } := .inl hrunning
  have hatt : ∀ d, sel'.isOpen d = true → sel'.tracked d = true ∨ handed' d = true →
      s.Attached d → Attached { s with sel := sel', handed := handed' } d := by
    intro d ho hin h
    cases h with
    | registered h =>
      exact .registered ((hreg d).2 (hlisted d ho hin ((registered_running hrunning).1 h)))
    -- a queued track has been applied or waits still
    | queued _ h =>
      rcases hops d ho h with h | h
      · exact .queued hearly h
      · exact .registered ((hreg d).2 h)
    | appending _ j hj hconn hmethod hpc => exact .appending hearly j hj hconn hmethod hpc
  refine ⟨hbase, fun c hc => hfresh c (hnext ▸ hc), fun j hj => ?_, fun d ho ht => ?_,
    fun d ho hh => ?_, fun hl => absurd hearly hl, fun hf => ?_, hi.noStray⟩
  · exact ⟨hnext ▸ (hi.calls j hj).1, (hi.calls j hj).2⟩
  · rcases htracked d ho ht with h | ⟨ho', ht'⟩
    · exact .registered ((hreg d).2 h)
    · exact hatt d ho (.inl ht) (hi.tracked d ho' ht')
  · rcases hheld d ho hh with h | ⟨ho', hh'⟩
    · exact .inl (.registered ((hreg d).2 h))
    · rcases hi.held d ho' hh' with h | ⟨j, hj, hconn, hawaits⟩
      · exact .inl (hatt d ho (.inr hh) h)
      · refine .inr ⟨j, hj, hconn, ?_⟩
        -- a call that is at work goes on as before
        cases hpc : j.pc with
        | mark => exact hearly
        | _ =>
          rw [hpc] at hawaits
          exact hawaits
  · cases hrunning.symm.trans hf

/-- Only the tracked mark of `c` changes. -/
theorem tracked_set {sel : Selector} {b : Bool} {d : Nat}
    (h : (sel.setTracked c b).tracked d = true) : d = c ∧ b = true ∨ sel.tracked d = true := by
  rw [Selector.tracked_setTracked] at h
  split at h
  · rename_i hdc
    exact .inl ⟨hdc, h⟩
  · exact .inr h

/-- Applying an operation opens nothing and marks nothing tracked. -/
theorem applyTrack_le {sel : Selector} (hi : Selector.Inv sel) (c d : Nat) :
    (sel.applyTrack c).isOpen d = sel.isOpen d ∧
      ((sel.applyTrack c).tracked d = true → sel.tracked d = true) ∧
      (sel.applyTrack c).next = sel.next ∧ (sel.applyTrack c).ops = sel.ops := by
  obtain ⟨-, -, heq⟩ | ⟨key, -, -, heq⟩ | ⟨-, heq⟩ := Selector.applyTrack_cases hi c
  · rw [heq]
    exact ⟨rfl, id, rfl, rfl⟩
  · rw [heq]
    exact ⟨rfl, id, rfl, rfl⟩
  · rw [heq]
    refine ⟨by simp, fun h => ?_, rfl, rfl⟩
    exact (tracked_set h).resolve_left (by simp)

theorem Ok.trackHere (hi : Ok s) (hrunning : s.stage = .running) (hlt : c < s.sel.next)
    (htimely : LoopTimely s.sel (.track c true)) :
    Ok { s with sel := s.sel.track c true, handed := Function.update s.handed c true } := by
  have hfresh : ∀ d, s.sel.next ≤ d → Function.update s.handed c true d = false := by
    intro d hd
    rw [Function.update_of_ne (Nat.ne_of_gt (Nat.lt_of_lt_of_le hlt hd))]
    exact hi.fresh d hd
  have hhanded : ∀ d, Function.update s.handed c true d = true → d = c ∨ s.handed d = true := by
    intro d hd
    by_cases hdc : d = c
    · exact .inl hdc
    · rw [Function.update_of_ne hdc] at hd
      exact .inr hd
  cases ht : s.sel.tracked c with
  | true =>
    have heq : s.sel.track c true = s.sel := by
      rw [Selector.track, if_pos ht]
    rw [heq]
    -- A tracked connection is attached already.
    refine ⟨hi.base, hfresh, hi.calls, fun d ho hd => ?_, fun d ho hh => ?_, hi.late,
      hi.quiet, hi.noStray⟩
    · cases hi.tracked d ho hd with
      | registered h => exact .registered h
      | queued hearly h => exact .queued hearly h
      | appending hearly j hj hconn hmethod hpc => exact .appending hearly j hj hconn hmethod hpc
    · have hcases : s.Attached d ∨ s.Pending d := by
        rcases hhanded d hh with rfl | hh
        · exact .inl (hi.tracked d ho ht)
        · exact hi.held d ho hh
      rcases hcases with h | h
      · cases h with
        | registered h => exact .inl (.registered h)
        | queued hearly h => exact .inl (.queued hearly h)
        | appending hearly j hj hconn hmethod hpc =>
          exact .inl (.appending hearly j hj hconn hmethod hpc)
      · exact .inr h
  | false =>
    have heq : s.sel.track c true = (s.sel.setTracked c true).applyTrack c := by
      rw [Selector.track, if_neg (by simp [ht]), if_pos rfl]
    have hbase := hi.base.setTracked c true
    have hspares : Spares (s.sel.setTracked c true) ((s.sel.setTracked c true).fd c) c := by
      simpa [Spares] using htimely ht
    have hopen : ∀ d, ((s.sel.setTracked c true).applyTrack c).isOpen d = s.sel.isOpen d :=
      fun d => (applyTrack_le hbase c d).1.trans (by simp)
    have hlisted : ∀ d, s.sel.isOpen d = true → d = c ∨ Listed s.sel d →
        Listed ((s.sel.setTracked c true).applyTrack c) d := fun d ho h =>
      listed_applyTrack hbase hspares (by simpa using ho) (by simpa [Listed] using h)
    rw [heq]
    refine hi.changeSel hrunning (hbase.applyTrack c)
      (applyTrack_le hbase c c).2.2.1 hfresh (fun d ho hd => ?_) (fun d ho hh => ?_)
        (fun d ho _ h => ?_) (fun d _ h => ?_)
    · rw [hopen] at ho
      rcases tracked_set ((applyTrack_le hbase c d).2.1 hd) with ⟨rfl, -⟩ | hd
      · exact .inl (hlisted d ho (.inl rfl))
      · exact .inr ⟨ho, hd⟩
    · rw [hopen] at ho
      rcases hhanded d hh with rfl | hh
      · exact .inl (hlisted d ho (.inl rfl))
      · exact .inr ⟨ho, hh⟩
    · rw [hopen] at ho
      exact hlisted d ho (.inr h)
    · rw [(applyTrack_le hbase c d).2.2.2]
      exact .inl h

/-- A timely drain keeps the invariant. -/
theorem Ok.drain (hi : Ok s) (hrunning : s.stage = .running) {sel' : Selector}
    (h : s.sel.drain = some sel') (htimely : LoopTimely s.sel .drain) :
    Ok { s with sel := sel' } := by
  unfold Selector.drain at h
  simp only [LoopTimely] at htimely
  split at h
  · cases h
  · rename_i c rest hops
    cases h
    simp only [hops] at htimely
    have hbase : Selector.Inv { s.sel with ops := rest } :=
      hi.base.of_eq rfl (fun _ => rfl) (fun _ => rfl) rfl rfl
    -- Applying the operation lists its connection and takes no open one off the list.
    have hlisted : ∀ d, s.sel.isOpen d = true → d = c ∨ Listed s.sel d →
        Listed (({ s.sel with ops := rest } : Selector).applyTrack c) d := fun d ho h =>
      listed_applyTrack hbase htimely ho h
    have hle := applyTrack_le hbase c
    refine hi.changeSel hrunning (hbase.applyTrack c) (hle c).2.2.1
      hi.fresh (fun d ho hd => ?_) (fun d ho hh => ?_) (fun d ho _ h => ?_) (fun d ho h => ?_)
    · exact .inr ⟨(hle d).1 ▸ ho, (hle d).2.1 hd⟩
    · exact .inr ⟨(hle d).1 ▸ ho, hh⟩
    · exact hlisted d ((hle d).1 ▸ ho) (.inr h)
    · -- The operation that was applied has listed its connection.
      rw [hops] at h
      rw [(hle d).2.2.2]
      rcases List.mem_cons.1 h with heq | h
      · exact .inr (hlisted d ((hle d).1 ▸ ho) (.inl (Op.track.inj heq)))
      · exact .inl h
  · rename_i fd rest hops
    cases h
    simp only [hops] at htimely
    have hbase : Selector.Inv { s.sel with ops := rest } :=
      hi.base.of_eq rfl (fun _ => rfl) (fun _ => rfl) rfl rfl
    refine hi.changeSel hrunning (hbase.unregister fd) (by simp) hi.fresh
      (fun d ho hd => ?_) (fun d ho hh => ?_) (fun d ho _ h => ?_) (fun d _ h => ?_)
    · rw [Selector.isOpen_unregister] at ho
      rw [Selector.tracked_unregister] at hd
      exact .inr ⟨ho, hd⟩
    · rw [Selector.isOpen_unregister] at ho
      exact .inr ⟨ho, hh⟩
    -- A connection with that descriptor would be closed, by the timeliness of the operation.
    · refine listed_unregister.2 ⟨h, fun hfd => ?_⟩
      obtain ⟨key, hkey, rfl⟩ := h
      have hfd' : s.sel.fd key.data = fd := hfd
      rw [hfd'] at hkey
      have hclosed := htimely key hkey
      rw [Selector.isOpen_unregister] at ho
      cases hclosed.symm.trans ho
    · rw [hops] at h
      rw [Selector.ops_unregister]
      rcases List.mem_cons.1 h with heq | h
      · cases heq
      · exact .inl h

theorem unregisterSock_cases (sel : Selector) (c : Nat) :
    sel.unregisterSock c = sel ∨ sel.unregisterSock c = sel.unregister (sel.fd c) := by
  unfold Selector.unregisterSock
  split
  · rename_i fd hlookup
    rw [(Selector.fileobjLookup_cases hlookup).1]
    exact .inr rfl
  · exact .inl rfl

/-- The key that the condition spares is not that of another open connection. -/
theorem Spares.ne {sel : Selector} {d : Nat} (h : Spares sel (sel.fd c) c)
    (hopen : sel.isOpen d = true) (hlisted : Listed sel d) (hne : d ≠ c) :
    sel.fd d ≠ sel.fd c := by
  intro hfd
  obtain ⟨key, hkey, rfl⟩ := hlisted
  rcases h key (hfd ▸ hkey) with h | h
  · exact hne h
  · cases hopen.symm.trans h

theorem Ok.stopTracking (hi : Ok s) (hrunning : s.stage = .running)
    (htimely : LoopTimely s.sel (.stopTracking c)) :
    Ok { s with sel := s.sel.stopTracking c, handed := Function.update s.handed c false } := by
  -- taking out the key of `c` takes none of another open connection
  have hsame : ∀ d, (s.sel.unregisterSock c).isOpen d = s.sel.isOpen d ∧
      (s.sel.unregisterSock c).tracked d = s.sel.tracked d ∧
      (s.sel.unregisterSock c).next = s.sel.next ∧ (s.sel.unregisterSock c).ops = s.sel.ops ∧
      (s.sel.isOpen d = true → Listed s.sel d → d ≠ c → Listed (s.sel.unregisterSock c) d) := by
    intro d
    rcases unregisterSock_cases s.sel c with heq | heq
    · rw [heq]
      exact ⟨rfl, rfl, rfl, rfl, fun _ h _ => h⟩
    · rw [heq]
      exact ⟨by simp, by simp, by simp, by simp, fun ho h hne =>
        listed_unregister.2 ⟨h, Spares.ne htimely ho h hne⟩⟩
  -- `c` is neither tracked nor handed over any more
  have hne : ∀ d, (s.sel.stopTracking c).tracked d = true ∨
      Function.update s.handed c false d = true → d ≠ c := by
    rintro d hin rfl
    rcases hin with h | h
    · rw [Selector.stopTracking, Selector.tracked_setTracked, if_pos rfl] at h
      cases h
    · rw [Function.update_self] at h
      cases h
  have hopen : ∀ d, (s.sel.stopTracking c).isOpen d = true → s.sel.isOpen d = true := by
    intro d ho
    rw [Selector.stopTracking, Selector.isOpen_setTracked, (hsame d).1] at ho
    exact ho
  have hfresh : ∀ d, s.sel.next ≤ d → Function.update s.handed c false d = false := by
    intro d hd
    by_cases hdc : d = c
    · rw [hdc, Function.update_self]
    · rw [Function.update_of_ne hdc]
      exact hi.fresh d hd
  refine hi.changeSel hrunning (hi.base.stopTracking c) (hsame c).2.2.1 hfresh
    (fun d ho ht => ?_) (fun d ho hh => ?_) (fun d ho hin h => ?_) (fun d ho h => ?_)
  · have hdc := hne d (.inl ht)
    rw [Selector.stopTracking, Selector.tracked_setTracked, if_neg hdc, (hsame d).2.1] at ht
    exact .inr ⟨hopen d ho, ht⟩
  · have hdc := hne d (.inr hh)
    rw [Function.update_of_ne hdc] at hh
    exact .inr ⟨hopen d ho, hh⟩
  · have hl := (hsame d).2.2.2.2 (hopen d ho) h (hne d hin)
    simpa [Selector.stopTracking, Listed] using hl
  · refine .inl ?_
    rw [Selector.stopTracking, Selector.ops_setTracked, (hsame d).2.2.2.1]
    exact h

theorem Ok.closeHere (hi : Ok s) (hrunning : s.stage = .running)
    (htimely : LoopTimely s.sel (.closeHere c)) : Ok { s with sel := s.sel.closeHere c } := by
  -- what is open after the close was open before, and is not `c`
  have hclosed : ∀ d, (s.sel.closeHere c).isOpen d = true → d ≠ c ∧ s.sel.isOpen d = true := by
    intro d ho
    have hboth : ((s.sel.setTracked c false).sockClose c).isOpen d = true := by
      unfold Selector.closeHere at ho
      split at ho
      · rwa [Selector.isOpen_unregister] at ho
      · exact ho
    rw [Selector.isOpen_sockClose] at hboth
    split at hboth
    · cases hboth
    · rename_i hdc
      exact ⟨hdc, by simpa using hboth⟩
  have htracked : ∀ d, d ≠ c → (s.sel.closeHere c).tracked d = s.sel.tracked d := by
    intro d hdc
    unfold Selector.closeHere
    split <;> simp [Selector.tracked_setTracked, hdc]
  have hrest : (s.sel.closeHere c).next = s.sel.next ∧ (s.sel.closeHere c).ops = s.sel.ops := by
    unfold Selector.closeHere
    split
    · exact ⟨by simp, by simp⟩
    · exact ⟨by simp, by simp⟩
  refine hi.changeSel hrunning (hi.base.closeHere c) hrest.1 hi.fresh
    (fun d ho ht => ?_) (fun d ho hh => .inr ⟨(hclosed d ho).2, hh⟩) (fun d ho _ h => ?_)
    (fun d _ h => .inl (hrest.2 ▸ h))
  · rw [htracked d (hclosed d ho).1] at ht
    exact .inr ⟨(hclosed d ho).2, ht⟩
  -- the key that the close removes is that of `c`
  · obtain ⟨hdc, ho⟩ := hclosed d ho
    have hsame : Listed ((s.sel.setTracked c false).sockClose c) d := by simpa [Listed] using h
    unfold Selector.closeHere
    split
    · rename_i ht
      refine listed_unregister.2 ⟨hsame, ?_⟩
      rw [Selector.fd_sockClose, Selector.fd_setTracked]
      exact Spares.ne (htimely ht) ho h hdc
    · exact hsame

/-- A new connection is not the selector's yet. -/
theorem Ok.accept (hi : Ok s) {fd : Nat}
    (hfree : ∀ c < s.sel.next, s.sel.isOpen c = true → s.sel.fd c ≠ fd) :
    Ok { s with sel := { s.sel with
      conns := Function.update s.sel.conns s.sel.next ⟨fd, true, false⟩
      next := s.sel.next + 1 } } := by
  -- The new connection takes the next number; the others keep their places everywhere.
  have hold : ∀ c, c ≠ s.sel.next →
      Function.update s.sel.conns s.sel.next ⟨fd, true, false⟩ c = s.sel.conns c :=
    fun c hc => Function.update_of_ne hc _ _
  have hlisted : ∀ c, c < s.sel.next → (Listed { s.sel with
      conns := Function.update s.sel.conns s.sel.next ⟨fd, true, false⟩
      next := s.sel.next + 1 } c ↔ Listed s.sel c) := by
    intro c hc
    simp only [Listed, Selector.fd, hold c (Nat.ne_of_lt hc)]
  have hreg : ∀ c, c < s.sel.next → s.Registered c → Registered { s with sel := { s.sel with
      conns := Function.update s.sel.conns s.sel.next ⟨fd, true, false⟩
      next := s.sel.next + 1 } } c := by
    intro c hc h
    simp only [Registered] at h ⊢
    cases hstage : s.stage with
    | walking left => simpa only [hstage] using h
    | finished => simp only [hstage] at h
    | running =>
      simp only [hstage] at h ⊢
      exact (hlisted c hc).2 h
    | draining =>
      simp only [hstage] at h ⊢
      exact (hlisted c hc).2 h
    | drained =>
      simp only [hstage] at h ⊢
      exact (hlisted c hc).2 h
  have hatt : ∀ c, c < s.sel.next → s.Attached c → Attached { s with sel := { s.sel with
      conns := Function.update s.sel.conns s.sel.next ⟨fd, true, false⟩
      next := s.sel.next + 1 } } c := by
    intro c hc h
    cases h with
    | registered h => exact .registered (hreg c hc h)
    | queued hearly h => exact .queued hearly h
    | appending hearly j hj hconn hmethod hpc => exact .appending hearly j hj hconn hmethod hpc
  refine ⟨hi.base.accept hfree, fun c hc => ?_, fun j hj => ?_,
    fun c ho ht => ?_, fun c ho hh => ?_, fun hl j hj hpc ho => ?_, hi.quiet, hi.noStray⟩
  · exact hi.fresh c (Nat.le_of_succ_le hc)
  · exact ⟨Nat.lt_succ_of_lt (hi.calls j hj).1, (hi.calls j hj).2⟩
  · by_cases hc : c = s.sel.next
    · subst hc
      simp [Selector.tracked] at ht
    · simp only [Selector.isOpen, Selector.tracked, hold c hc] at ho ht
      exact hatt c (hi.base.lt_next ho) (hi.tracked c ho ht)
  · by_cases hc : c = s.sel.next
    · subst hc
      cases (hi.fresh s.sel.next (Nat.le_refl _)).symm.trans hh
    · simp only [Selector.isOpen, hold c hc] at ho
      exact (hi.held c ho hh).imp_left (hatt c (hi.base.lt_next ho))
  · have hlt := (hi.calls j hj).1
    simp only [Selector.isOpen, hold j.conn (Nat.ne_of_lt hlt)] at ho
    exact hreg j.conn hlt (hi.late hl j hj hpc ho)

/-- A timely step of the loop keeps the invariant. -/
theorem Ok.loop (hi : Ok s) {a : Act} (h : s.loop a = some s')
    (htimely : LoopTimely s.sel a) : Ok s' := by
  unfold Shutdown.loop at h
  split at h
  · obtain ⟨sel', hsel, rfl⟩ := Option.map_eq_some_iff.1 h
    obtain ⟨hfree, ⟨⟩⟩ := Option.ite_none_right_eq_some.1 hsel
    exact hi.accept hfree
  · obtain ⟨hrunning, h⟩ := Option.ite_none_right_eq_some.1 h
    obtain ⟨sel', hsel, rfl⟩ := Option.map_eq_some_iff.1 h
    obtain ⟨hlt, ⟨⟩⟩ := Option.ite_none_right_eq_some.1 hsel
    exact hi.trackHere hrunning hlt htimely
  · obtain ⟨hrunning, h⟩ := Option.ite_none_right_eq_some.1 h
    obtain ⟨sel', hsel, rfl⟩ := Option.map_eq_some_iff.1 h
    obtain ⟨-, ⟨⟩⟩ := Option.ite_none_right_eq_some.1 hsel
    exact hi.stopTracking hrunning htimely
  · obtain ⟨hrunning, h⟩ := Option.ite_none_right_eq_some.1 h
    obtain ⟨sel', hsel, rfl⟩ := Option.map_eq_some_iff.1 h
    obtain ⟨-, ⟨⟩⟩ := Option.ite_none_right_eq_some.1 hsel
    exact hi.closeHere hrunning htimely
  · obtain ⟨hrunning, h⟩ := Option.ite_none_right_eq_some.1 h
    obtain ⟨sel', hsel, rfl⟩ := Option.map_eq_some_iff.1 h
    exact hi.drain hrunning hsel htimely
  · cases h

/-! ## Steps of the shutdown -/

/-- A step of `shutdown`, which opens nothing and marks nothing tracked. -/
theorem Ok.changeStage (hi : Ok s) {sel' : Selector} {stage' : Stage}
    (hbase : Selector.Inv sel') (hnext : sel'.next = s.sel.next)
    (hopen : ∀ c, sel'.isOpen c = true → s.sel.isOpen c = true)
    (htracked : ∀ c, sel'.tracked c = true → s.sel.tracked c = true)
    (hatt : ∀ c, sel'.isOpen c = true → s.Attached c →
      Attached { s with sel := sel', stage := stage' } c)
    (hpend : ∀ c, sel'.isOpen c = true → s.Pending c →
      Attached { s with sel := sel', stage := stage' } c ∨
        Pending { s with sel := sel', stage := stage' } c)
    (hlate : ¬Early { s with sel := sel', stage := stage' } → ∀ k ∈ s.calls,
      k.pc = .mark ∨ k.pc = .append ∧ k.method ≠ .close → sel'.isOpen k.conn = true →
      Registered { s with sel := sel', stage := stage' } k.conn)
    (hquiet : stage' = .finished → ∀ k ∈ s.calls, k.pc.writes = false) :
    Ok { s with sel := sel', stage := stage' } := by
  refine ⟨hbase, fun c hc => hi.fresh c (hnext ▸ hc), fun j hj => ?_,
    fun c ho ht => hatt c ho (hi.tracked c (hopen c ho) (htracked c ht)), fun c ho hh => ?_,
    hlate, hquiet, hi.noStray⟩
  · exact ⟨hnext ▸ (hi.calls j hj).1, (hi.calls j hj).2⟩
  · rcases hi.held c (hopen c ho) hh with h | h
    · exact .inl (hatt c ho h)
    · exact hpend c ho h

/-- A call awaits its decision at the next stage too, except a mark once the drain is over. -/
theorem Pending.stage {sel' : Selector} {stage' : Stage} (h : s.Pending c)
    (hmark : ∀ k ∈ s.calls, k.conn = c → k.pc = .mark → s.Early →
      Attached { s with sel := sel', stage := stage' } c ∨
        Early { s with sel := sel', stage := stage' }) :
    Attached { s with sel := sel', stage := stage' } c ∨
      Pending { s with sel := sel', stage := stage' } c := by
  obtain ⟨j, hj, hconn, hawaits⟩ := h
  cases hpc : j.pc with
  | mark =>
    rw [hpc] at hawaits
    rcases hmark j hj hconn hpc hawaits with h | h
    · exact .inl h
    · exact .inr ⟨j, hj, hconn, by rw [hpc]; exact h⟩
  | _ =>
    rw [hpc] at hawaits
    exact .inr ⟨j, hj, hconn, by rw [hpc]; exact hawaits⟩

/-- Shutdown begins with what the loop has left. -/
theorem Ok.begin (hi : Ok s) (hrunning : s.stage = .running) :
    Ok { s with stage := .draining } := by
  have hearly : Early { s with stage := .draining } := .inr rfl
  refine hi.changeStage hi.base rfl (fun _ h => h) (fun _ h => h) (fun c _ h => ?_)
    (fun c _ h => h.stage fun _ _ _ _ _ => .inr hearly) (fun hl => absurd hearly hl)
    (fun h => by cases h)
  cases h with
  | registered h => exact .registered ((registered_running hrunning).1 h)
  | queued _ h => exact .queued hearly h
  | appending _ j hj hconn hmethod hpc => exact .appending hearly j hj hconn hmethod hpc

theorem Ok.popOp (hi : Ok s) (h : s.popOp = some s') (htimely : s.Timely .popOp) : Ok s' := by
  obtain ⟨hdraining, h⟩ := Option.ite_none_right_eq_some.1 h
  have hreg : ∀ c, s.Registered c ↔ Listed s.sel c := by
    intro c
    simp only [Registered, hdraining]
  have hearly : s.Early := .inr hdraining
  -- As long as the drain goes on a connection that is still open keeps its place.
  have hmore : ∀ {sel' : Selector} {rest : List Op}, Selector.Inv sel' →
      sel'.next = s.sel.next → sel'.ops = rest →
      (∀ c, sel'.isOpen c = true → s.sel.isOpen c = true ∧
        (Op.track c ∈ s.sel.ops → Op.track c ∈ rest)) →
      (∀ c, sel'.tracked c = true → s.sel.tracked c = true) →
      (∀ c, Listed sel' c ↔ Listed s.sel c) → Ok { s with sel := sel', stage := s.stage } := by
    intro sel' rest hbase hnext hops hopen htracked hlisted
    refine hi.changeStage hbase hnext (fun c ho => (hopen c ho).1) htracked
      (fun c ho h => ?_) (fun c _ h => h.stage fun _ _ _ _ _ => .inr hearly)
      (fun hl => absurd hearly hl) (fun hf => by cases hdraining.symm.trans hf)
    cases h with
    | registered h =>
      refine .registered ?_
      simp only [Registered, hdraining]
      exact (hlisted c).2 ((hreg c).1 h)
    | queued _ h => exact .queued hearly (hops ▸ (hopen c ho).2 h)
    | appending _ j hj hconn hmethod hpc => exact .appending hearly j hj hconn hmethod hpc
  split at h
  · rename_i hops
    cases h
    have hcond := htimely hops
    refine hi.changeStage hi.base rfl (fun _ h => h) (fun _ h => h) (fun c ho h => ?_)
      (fun c ho h => h.stage fun j hj hconn hpc _ => ?_) (fun _ j hj hpc ho => hcond j hj hpc ho)
      (fun h => by cases h)
    · cases h with
      | registered h => exact .registered ((hreg c).1 h)
      | queued _ h => simp [hops] at h
      | appending _ j hj hconn hmethod hpc =>
        subst hconn
        exact .registered (hcond j hj (.inr ⟨hpc, hmethod⟩) ho)
    · subst hconn
      exact .inl (.registered (hcond j hj (.inl hpc) ho))
  · rename_i c rest hops
    cases h
    have hbase : Selector.Inv { s.sel with ops := rest } :=
      hi.base.of_eq rfl (fun _ => rfl) (fun _ => rfl) rfl rfl
    have hlisted : ∀ d, Listed ((({ s.sel with ops := rest } : Selector).sockClose c).setTracked
        c false) d ↔ Listed { s.sel with ops := rest } d := fun d => by simp [Listed]
    refine @hmore _ rest ((hbase.sockClose c).setTracked c false)
      (by simp) (by simp) (fun d ho => ?_) (fun d ht => ?_) hlisted
    · rw [Selector.isOpen_setTracked, Selector.isOpen_sockClose] at ho
      split at ho
      · cases ho
      · rename_i hdc
        refine ⟨ho, fun h => ?_⟩
        rw [hops] at h
        rcases List.mem_cons.1 h with heq | h
        · exact absurd (Op.track.inj heq) hdc
        · exact h
    · have ht' := (tracked_set ht).resolve_left (by simp)
      rwa [Selector.tracked_sockClose] at ht'
  · rename_i fd rest hops
    cases h
    refine @hmore _ rest (hi.base.of_eq rfl (fun _ => rfl) (fun _ => rfl) rfl rfl) rfl rfl
      (fun d ho => ⟨ho, fun h => ?_⟩) (fun _ h => h)
      (fun d => Iff.rfl)
    rw [hops] at h
    rcases List.mem_cons.1 h with heq | h
    · cases heq
    · exact h

/-- The snapshot holds every connection that is in the map. -/
theorem mem_listed (hi : Selector.Inv s.sel) (h : Listed s.sel c) : c ∈ listed s.sel := by
  obtain ⟨key, hkey, rfl⟩ := h
  have hunder := hi.under _ key hkey
  refine List.mem_filterMap.2 ⟨key.fileobj, List.mem_range.2 (hi.bound _ key hkey), ?_⟩
  have hmap : s.sel.map (s.sel.fd key.fileobj) = some key := by
    rw [hunder]
    exact hkey
  rw [hmap]
  exact if_pos rfl

theorem Ok.walk (hi : Ok s) {a : ShutdownAct} (h : s.walk a = some s') (htimely : s.Timely a) :
    Ok s' := by
  -- From the end of the drain on a connection is attached through the map only.
  have hatt : ∀ {sel' : Selector} {stage' : Stage}, ¬s.Early → (∀ c, sel'.isOpen c = true →
      s.Registered c → Registered { s with sel := sel', stage := stage' } c) →
      ∀ c, sel'.isOpen c = true → s.Attached c →
      Attached { s with sel := sel', stage := stage' } c := by
    intro sel' stage' hlate hreg c ho h
    cases h with
    | registered h => exact .registered (hreg c ho h)
    | queued hearly => exact absurd hearly hlate
    | appending hearly => exact absurd hearly hlate
  unfold Shutdown.walk at h
  split at h
  · obtain ⟨hdrained, ⟨⟩⟩ := Option.ite_none_right_eq_some.1 h
    have hlate : ¬s.Early := by simp [Early, hdrained]
    have hreg : ∀ c, s.sel.isOpen c = true → s.Registered c → c ∈ listed s.sel := by
      intro c _ h
      simp only [Registered, hdrained] at h
      exact mem_listed hi.base h
    exact hi.changeStage hi.base rfl (fun _ h => h) (fun _ h => h)
      (hatt hlate hreg) (fun c _ h => h.stage fun _ _ _ _ he => absurd he hlate)
      (fun _ j hj hpc ho => hreg _ ho (hi.late hlate j hj hpc ho)) (fun h => by cases h)
  · split at h
    · rename_i c left hstage
      cases h
      have hlate : ¬s.Early := by simp [Early, hstage]
      have hopen : ∀ d, (((s.sel.unregisterSock c).sockClose c).setTracked c false).isOpen d =
          true → d ≠ c ∧ s.sel.isOpen d = true := by
        intro d ho
        rw [Selector.isOpen_setTracked, Selector.isOpen_sockClose] at ho
        split at ho
        · cases ho
        · rename_i hdc
          refine ⟨hdc, ?_⟩
          rcases unregisterSock_cases s.sel c with heq | heq
          · rwa [heq] at ho
          · rwa [heq, Selector.isOpen_unregister] at ho
      have hreg : ∀ d, (((s.sel.unregisterSock c).sockClose c).setTracked c false).isOpen d =
          true → s.Registered d → d ∈ left := by
        intro d ho h
        simp only [Registered, hstage] at h
        exact (List.mem_cons.1 h).resolve_left (hopen d ho).1
      refine hi.changeStage (((hi.base.unregisterSock c).sockClose c).setTracked c false)
        ?_ (fun d ho => (hopen d ho).2) (fun d ht => ?_) (hatt hlate hreg)
        (fun d _ h => h.stage fun _ _ _ _ he => absurd he hlate)
        (fun _ j hj hpc ho => hreg _ ho (hi.late hlate j hj hpc (hopen _ ho).2))
        (fun h => by cases h)
      · rcases unregisterSock_cases s.sel c with heq | heq
        · simp [heq]
        · simp [heq]
      · have ht' := (tracked_set ht).resolve_left (by simp)
        rw [Selector.tracked_sockClose] at ht'
        rcases unregisterSock_cases s.sel c with heq | heq
        · rwa [heq] at ht'
        · rwa [heq, Selector.tracked_unregister] at ht'
    · cases h
  · obtain ⟨hwalked, ⟨⟩⟩ := Option.ite_none_right_eq_some.1 h
    have hlate : ¬s.Early := by simp [Early, hwalked]
    have hreg : ∀ c, ¬s.Registered c := by
      intro c h
      simp [Registered, hwalked] at h
    exact hi.changeStage hi.base rfl (fun _ h => h) (fun _ h => h)
      (hatt hlate fun c _ h => absurd h (hreg c))
      (fun c _ h => h.stage fun _ _ _ _ he => absurd he hlate)
      (fun _ j hj hpc ho => absurd (hi.late hlate j hj hpc ho) (hreg _)) (fun _ => htimely)
  · cases h

/-- A timely step keeps the invariant. -/
theorem Ok.step (hi : Ok s) {a : ShutdownAct} (h : s.step a = some s') (htimely : s.Timely a) :
    Ok s' := by
  cases a with
  | loop a => exact hi.loop h htimely
  | call m c => exact hi.call h
  | advance i => exact hi.advance h htimely
  | shutdown =>
    obtain ⟨hrunning, ⟨⟩⟩ := Option.ite_none_right_eq_some.1 h
    exact hi.begin hrunning
  | popOp => exact hi.popOp h htimely
  | snapshot => exact hi.walk (a := .snapshot) h trivial
  | walkOne => exact hi.walk (a := .walkOne) h trivial
  | closePipe => exact hi.walk (a := .closePipe) h htimely

/-! ## Untimely steps -/

theorem step_advance (hk : s.calls[i]? = some k) {sel' : Selector} {pc : Pc}
    (h : s.next k = some (sel', pc)) :
    shutdownSystem.step s (.advance i) = some (s.moved i k sel' pc) := by
  simp only [shutdownSystem, Shutdown.step, Shutdown.advance, hk, Option.bind_some, h,
    Option.map_some]

theorem moved_calls (hk : s.calls[i]? = some k) (sel' : Selector) (pc : Pc) :
    (s.moved i k sel' pc).calls[i]? = some { k with pc := pc } := by
  refine (getElem?_set_iff hk).2 ?_
  rw [if_pos rfl]

/-- A call on its way to a wake-up gets there after the pipe was closed. -/
theorem strays_of_writes (hfinished : s.stage = .finished) (hk : s.calls[i]? = some k)
    (hwrites : k.pc.writes = true) :
    ∃ bs u, shutdownSystem.exec s bs = some u ∧ u.stray = true := by
  -- from each place on the way the call comes to the write, if it takes its steps
  have hwake : ∀ {s : Shutdown} {k : Call}, s.stage = .finished → s.calls[i]? = some k →
      k.pc = .wake → ∃ bs u, shutdownSystem.exec s bs = some u ∧ u.stray = true := by
    intro s k hf hk hpc
    have hstep := step_advance hk (by simp only [Shutdown.next, hpc]; rfl)
    refine ⟨[.advance i], _, (Lts.exec_cons _).2 ⟨_, hstep, rfl⟩, ?_⟩
    simp [moved, hpc, hf]
  have happend : ∀ {s : Shutdown} {k : Call}, s.stage = .finished → s.calls[i]? = some k →
      k.pc = .append → ∃ bs u, shutdownSystem.exec s bs = some u ∧ u.stray = true := by
    intro s k hf hk hpc
    have hstep := step_advance hk (by simp only [Shutdown.next, hpc]; rfl)
    obtain ⟨bs, u, hrun, hu⟩ := hwake (s := s.moved i k _ .wake) hf (moved_calls hk _ _) rfl
    exact ⟨.advance i :: bs, u, (Lts.exec_cons _).2 ⟨_, hstep, hrun⟩, hu⟩
  cases hpc : k.pc with
  | wake => exact hwake hfinished hk hpc
  | append => exact happend hfinished hk hpc
  -- the mark is followed by the append, and that by the write
  | mark =>
    have hstep := step_advance hk (by simp only [Shutdown.next, hpc]; rfl)
    obtain ⟨bs, u, hrun, hu⟩ :=
      happend (s := s.moved i k _ .append) hfinished (moved_calls hk _ _) rfl
    exact ⟨.advance i :: bs, u, (Lts.exec_cons _).2 ⟨_, hstep, hrun⟩, hu⟩
  | closeSock wasTracked =>
    rw [hpc] at hwrites
    -- a connection that was not tracked is closed without an operation
    have htrue : wasTracked = true := hwrites
    subst htrue
    have hstep := step_advance hk (by simp only [Shutdown.next, hpc, if_true]; rfl)
    obtain ⟨bs, u, hrun, hu⟩ :=
      happend (s := s.moved i k _ .append) hfinished (moved_calls hk _ _) rfl
    exact ⟨.advance i :: bs, u, (Lts.exec_cons _).2 ⟨_, hstep, hrun⟩, hu⟩
  -- the other places do not lead to a write
  | check => simp [hpc, Pc.writes] at hwrites
  | reject => simp [hpc, Pc.writes] at hwrites
  | untrack => simp [hpc, Pc.writes] at hwrites
  | test => simp [hpc, Pc.writes] at hwrites
  | closeMark => simp [hpc, Pc.writes] at hwrites
  | done => simp [hpc, Pc.writes] at hwrites

/-- From the end of the drain on `shutdown` comes to its end by its own steps. -/
theorem finishes (hlate : ¬s.Early) :
    ∃ bs u, shutdownSystem.exec s bs = some u ∧ u.stage = .finished ∧ u.calls = s.calls := by
  -- the walk closes what is left, one connection after the other, and the pipe at its end
  have hwalk : ∀ (left : List Nat) (s : Shutdown), s.stage = .walking left →
      ∃ bs u, shutdownSystem.exec s bs = some u ∧ u.stage = .finished ∧ u.calls = s.calls := by
    intro left
    induction left with
    | nil =>
      intro s hs
      refine ⟨[.closePipe], { s with stage := .finished },
        (Lts.exec_cons _).2 ⟨_, ?_, rfl⟩, rfl, rfl⟩
      simp only [shutdownSystem, Shutdown.step, Shutdown.walk, hs, if_true]
    | cons c left ih =>
      intro s hs
      obtain ⟨bs, u, hrun, hu, hcalls⟩ := ih { s with
        sel := ((s.sel.unregisterSock c).sockClose c).setTracked c false
        stage := .walking left } rfl
      refine ⟨.walkOne :: bs, u, (Lts.exec_cons _).2 ⟨_, ?_, hrun⟩, hu, hcalls⟩
      simp only [shutdownSystem, Shutdown.step, Shutdown.walk, hs]
  cases hs : s.stage with
  | running => exact absurd (.inl hs) hlate
  | draining => exact absurd (.inr hs) hlate
  -- behind the drain there is the snapshot, then the walk over it
  | drained =>
    obtain ⟨bs, u, hrun, hu, hcalls⟩ :=
      hwalk (listed s.sel) { s with stage := .walking (listed s.sel) } rfl
    refine ⟨.snapshot :: bs, u, (Lts.exec_cons _).2 ⟨_, ?_, hrun⟩, hu, hcalls⟩
    simp only [shutdownSystem, Shutdown.step, Shutdown.walk, hs, if_true]
  | walking left => exact hwalk left s hs
  | finished => exact ⟨[], s, rfl, hs, rfl⟩

/-- Once the drain is over a call that is on its way to a wake-up can be left there until the pipe
is closed. -/
theorem strays (hlate : ¬s.Early) (hk : s.calls[i]? = some k) (hwrites : k.pc.writes = true) :
    ∃ bs u, shutdownSystem.exec s bs = some u ∧ u.stray = true := by
  obtain ⟨bs, u, hrun, hu, hcalls⟩ := finishes hlate
  rw [← hcalls] at hk
  obtain ⟨bs', u', hrun', hu'⟩ := strays_of_writes hu hk hwrites
  exact ⟨bs ++ bs', u', (Lts.exec_append _).2 ⟨u, hrun, hrun'⟩, hu'⟩

/-- A step of the shutdown phase that is not timely leads to a write to the closed pipe. -/
theorem untimely_strays {a : ShutdownAct} (h : s.step a = some s') (hstage : s.stage ≠ .running)
    (hbad : ¬s.Timely a) : ∃ bs u, shutdownSystem.exec s' bs = some u ∧ u.stray = true := by
  cases a with
  | loop a =>
    -- The loop has stopped, and a new connection is always timely.
    simp only [Shutdown.step, Shutdown.loop, if_neg hstage] at h
    split at h
    · exact absurd trivial hbad
    · cases h
    · cases h
    · cases h
    · cases h
    · cases h
  | call m c => exact absurd trivial hbad
  | shutdown => exact absurd trivial hbad
  | snapshot => exact absurd trivial hbad
  | walkOne => exact absurd trivial hbad
  | advance i =>
    obtain ⟨k, hk, h⟩ := Option.bind_eq_some_iff.1 h
    have hnot : ¬((k.pc = .test → ¬s.Early → s.sel.tracked k.conn = true ∨
        s.stage ≠ .finished ∧ (s.sel.isOpen k.conn = false ∨ s.Registered k.conn)) ∧
        (k.pc = .closeMark → s.stage = .finished → s.sel.tracked k.conn = false)) := by
      intro hboth
      refine hbad fun j hj => ?_
      cases hk.symm.trans hj
      exact hboth
    rcases not_and_or.1 hnot with hnot | hnot
    · simp only [Classical.not_imp, not_or] at hnot
      obtain ⟨hpc, hlate, ht, -⟩ := hnot
      simp only [Shutdown.next, hpc, if_neg ht, Option.map_some, Option.some.injEq] at h
      subst h
      exact strays hlate (moved_calls hk _ _) rfl
    · simp only [Classical.not_imp, Bool.not_eq_false] at hnot
      obtain ⟨hpc, hfinished, ht⟩ := hnot
      simp only [Shutdown.next, hpc, ht, Option.map_some, Option.some.injEq] at h
      subst h
      exact strays_of_writes hfinished (moved_calls hk _ _) rfl
  | popOp =>
    simp only [Timely, Classical.not_imp, not_forall] at hbad
    obtain ⟨hops, k, hmem, hpc, -⟩ := hbad
    obtain ⟨hdraining, h⟩ := Option.ite_none_right_eq_some.1 h
    simp only [hops, Option.some.injEq] at h
    subst h
    obtain ⟨i, hk⟩ := List.getElem?_of_mem hmem
    refine strays (i := i) (k := k) (by simp [Early]) hk ?_
    rcases hpc with hpc | ⟨hpc, -⟩
    · rw [hpc]
      rfl
    · rw [hpc]
      rfl
  | closePipe =>
    simp only [Timely, not_forall, Bool.not_eq_false] at hbad
    obtain ⟨k, hmem, hwrites⟩ := hbad
    obtain ⟨hwalked, ⟨⟩⟩ := Option.ite_none_right_eq_some.1 h
    obtain ⟨i, hk⟩ := List.getElem?_of_mem hmem
    exact strays_of_writes (i := i) rfl hk hwrites

end Shutdown

/-! ## Runs -/

/-- In a run whose steps are timely the shutdown leaks no connection and nobody writes to the closed
pipe. The first step of the shutdown phase that is not timely leads to such a write. -/
theorem shutdown_leaks_nothing {as : List ShutdownAct}
    (hmeets : shutdownSystem.Meets Shutdown.Timely .start as) :
    shutdownSystem.Throughout Shutdown.Sound .start as ∧
      ∀ s a t, shutdownSystem.exec .start as = some s → shutdownSystem.step s a = some t →
        s.stage ≠ .running → ¬s.Timely a →
        ∃ bs u, shutdownSystem.exec t bs = some u ∧ ¬u.Sound := by
  have hok : shutdownSystem.Throughout Shutdown.Ok .start as :=
    Lts.throughout_of_meets (I := fun _ => True) (fun _ _ _ _ _ => trivial)
      (fun _ _ _ _ hi htimely hstep => hi.step hstep htimely) trivial .start hmeets
  refine ⟨hok.mono fun _ hi => hi.sound, fun s a t _ hstep hstage hbad => ?_⟩
  obtain ⟨bs, u, hrun, hu⟩ := Shutdown.untimely_strays hstep hstage hbad
  refine ⟨bs, u, hrun, fun hsound => ?_⟩
  cases hsound.noStray.symm.trans hu

/-- A connection in the map, one that is posted while the shutdown drains, one that is posted after
it and one that is closed meanwhile. -/
def ordinaryShutdown : List ShutdownAct :=
  [.loop (.accept 5), .loop (.track 0 true), .loop (.accept 6), .call .postTrack 1, .advance 0,
    .shutdown, .advance 0, .advance 0, .advance 0, .popOp, .popOp, .snapshot, .loop (.accept 7),
    .call .track 2, .advance 1, .call .close 0, .advance 2, .advance 2, .walkOne, .advance 2,
    .advance 2, .closePipe, .advance 1, .advance 1]

theorem shutdown_leaks_nothing_ordinaryShutdown :
    (shutdownSystem.exec .start ordinaryShutdown).isSome ∧
      shutdownSystem.Throughout Shutdown.Sound .start ordinaryShutdown :=
  ⟨by decide, (shutdown_leaks_nothing (by decide)).1⟩

/-- A `post_track` has seen that nothing is shutting down, and goes on after the shutdown. -/
def lateTrack : List ShutdownAct :=
  [.loop (.accept 5), .call .postTrack 0, .advance 0, .shutdown, .popOp, .snapshot, .closePipe,
    .advance 0, .advance 0, .advance 0]

/-- The connection stays open with its operation in a queue that nobody drains, and the pipe gets a
write after it was closed. -/
theorem late_track_leaks :
    ∃ s, shutdownSystem.Reachable s ∧ s.stage = .finished ∧
      s.calls = [⟨.postTrack, 0, .done⟩] ∧ s.sel.isOpen 0 = true ∧ s.sel.ops = [.track 0] ∧
      s.stray = true ∧ ¬s.Sound := by
  have hreach := Lts.Reachable.of_isSome (M := shutdownSystem) rfl lateTrack rfl
  generalize hs : (shutdownSystem.exec .start lateTrack).get rfl = s at hreach
  have hstray : s.stray = true := by
    subst hs
    rfl
  refine ⟨s, hreach, ?_, ?_, ?_, ?_, hstray, fun h => ?_⟩
  · subst hs
    rfl
  · subst hs
    rfl
  · subst hs
    rfl
  · subst hs
    rfl
  · cases h.noStray.symm.trans hstray

end LocalPost.Http.Base
