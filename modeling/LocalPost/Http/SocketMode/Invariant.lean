import LocalPost.Http.Base.PollSet
import LocalPost.Http.SocketMode.State

/-!
# What every piece of the server keeps

`Books` is about the selector alone: a key that dispatches to an open connection stands only for one
that is marked tracked. `Inv` adds the modes: an open socket whose connection is marked tracked does
not block.

Most changes of the selector only take something away (`Quieter`). Those that register a connection
need its socket to be in non-blocking mode.
-/

set_option autoImplicit false

namespace LocalPost.Http.SocketMode

open LocalPost.Core LocalPost.Http.Base

variable {sel sel' sel'' : Selector} {c : Nat}

/-- A key of the map dispatches to `c`. -/
def Listed (sel : Selector) (c : Nat) : Prop := ∃ f key, sel.map f = some key ∧ key.data = c

/-- The map, the queue and the flags of the connections. -/
structure Books (sel : Selector) : Prop where
  inv : sel.Inv
  data : ∀ f key, sel.map f = some key → key.data < sel.next ∧ sel.fd key.data = f
  ops : ∀ c, Op.track c ∈ sel.ops → c < sel.next
  listed : ∀ c, sel.isOpen c = true → Listed sel c → sel.tracked c = true

/-- Keys, operations and open sockets are fewer, and an open connection is marked as before. -/
structure Quieter (sel sel' : Selector) : Prop where
  next : sel'.next = sel.next
  fd : ∀ c, sel'.fd c = sel.fd c
  map : ∀ f key, sel'.map f = some key → sel.map f = some key
  ops : ∀ c, Op.track c ∈ sel'.ops → Op.track c ∈ sel.ops
  isOpen : ∀ c, sel'.isOpen c = true → sel.isOpen c = true
  tracked : ∀ c, sel'.isOpen c = true → sel'.tracked c = sel.tracked c

namespace Quieter

theorem refl (sel : Selector) : Quieter sel sel :=
  ⟨rfl, fun _ => rfl, fun _ _ h => h, fun _ h => h, fun _ h => h, fun _ _ => rfl⟩

theorem trans (h : Quieter sel sel') (h' : Quieter sel' sel'') : Quieter sel sel'' where
  next := h'.next.trans h.next
  fd c := (h'.fd c).trans (h.fd c)
  map f key hkey := h.map f key (h'.map f key hkey)
  ops c hc := h.ops c (h'.ops c hc)
  isOpen c hc := h.isOpen c (h'.isOpen c hc)
  tracked c hc := (h'.tracked c hc).trans (h.tracked c (h'.isOpen c hc))

/-- Closing a socket adds nothing. -/
theorem sockClose (sel : Selector) (c : Nat) : Quieter sel (sel.sockClose c) where
  next := by simp
  fd := by simp
  map f key h := by simpa using h
  ops d h := by simpa using h
  isOpen d h := by
    rw [Selector.isOpen_sockClose] at h
    split at h
    · cases h
    · exact h
  tracked d _ := by simp

/-- Unregistering adds nothing. -/
theorem unregister (sel : Selector) (fd : Nat) : Quieter sel (sel.unregister fd) where
  next := by simp
  fd := by simp
  map f key h := by
    rw [Selector.map_unregister] at h
    split at h
    · cases h
    · exact h
  ops d h := by simpa using h
  isOpen d h := by simpa using h
  tracked d _ := by simp

/-- A connection whose socket is closed may be marked either way. -/
theorem setTracked {b : Bool} (hclosed : sel.isOpen c = false) :
    Quieter sel (sel.setTracked c b) where
  next := rfl
  fd := by simp
  map f key h := h
  ops d h := h
  isOpen d h := by simpa using h
  tracked d h := by
    rw [Selector.isOpen_setTracked] at h
    rw [Selector.tracked_setTracked, if_neg]
    intro heq
    rw [heq, hclosed] at h
    cases h

/-- The flag and the socket, in the order of `close`. -/
theorem untrackClose (sel : Selector) (c : Nat) :
    Quieter sel ((sel.setTracked c false).sockClose c) where
  next := by simp
  fd := by simp
  map f key h := by simpa using h
  ops d h := by simpa using h
  isOpen d h := by
    rw [Selector.isOpen_sockClose] at h
    split at h
    · cases h
    · simpa using h
  tracked d h := by
    rw [Selector.isOpen_sockClose] at h
    rw [Selector.tracked_sockClose, Selector.tracked_setTracked]
    split at h
    · cases h
    · rename_i hne
      rw [if_neg hne]

theorem postClose (sel : Selector) (fd : Nat) : Quieter sel (sel.postClose fd) where
  next := rfl
  fd _ := rfl
  map f key h := h
  ops d h := by simpa [Selector.postClose] using h
  isOpen d h := h
  tracked d _ := rfl

/-- Taking an operation adds nothing. -/
theorem popOp {op : Op} {rest : List Op} (hops : sel.ops = op :: rest) :
    Quieter sel { sel with ops := rest } where
  next := rfl
  fd _ := rfl
  map f key h := h
  ops d h := by
    rw [hops]
    exact List.mem_cons_of_mem op h
  isOpen d h := h
  tracked d _ := rfl

theorem listed (h : Quieter sel sel') : Listed sel' c → Listed sel c := by
  rintro ⟨f, key, hkey, hdata⟩
  exact ⟨f, key, h.map f key hkey, hdata⟩

/-- Fewer keys and operations keep the books. -/
theorem books (h : Quieter sel sel') (hb : Books sel) (hinv : sel'.Inv) : Books sel' where
  inv := hinv
  data f key hkey := by
    rw [h.next, h.fd]
    exact hb.data f key (h.map f key hkey)
  ops c hop := by
    rw [h.next]
    exact hb.ops c (h.ops c hop)
  listed c hopen hlisted := by
    rw [h.tracked c hopen]
    exact hb.listed c (h.isOpen c hopen) (h.listed hlisted)

end Quieter

/-! ## Registering -/

/-- `_apply_track` adds a key for its connection, and marks it untracked only together with closing
its socket. -/
structure Adds (c : Nat) (sel sel' : Selector) : Prop where
  next : sel'.next = sel.next
  fd : ∀ d, sel'.fd d = sel.fd d
  map : ∀ f key, sel'.map f = some key → sel.map f = some key ∨ key.data = c ∧ f = sel.fd c
  ops : sel'.ops = sel.ops
  isOpen : ∀ d, sel'.isOpen d = true → sel.isOpen d = true
  tracked : ∀ d, sel'.isOpen d = true → sel'.tracked d = sel.tracked d

/-- `_apply_track` adds the key of its connection only. -/
theorem applyTrack_adds (hi : sel.Inv) (c : Nat) : Adds c sel (sel.applyTrack c) := by
  have hkeys : ∀ {key : Key} {k : Nat → Bool}, key.data = c →
      Adds c sel
          { sel with map := Function.update sel.map (sel.fd c) (some key), kernel := k } := by
    intro key k hdata
    refine ⟨rfl, fun _ => rfl, fun f key' hkey' => ?_, rfl, fun _ h => h, fun _ _ => rfl⟩
    by_cases hf : f = sel.fd c
    · simp only [hf, Function.update_self, Option.some.injEq] at hkey'
      exact .inr ⟨hkey' ▸ hdata, hf⟩
    · simp only [Function.update_of_ne hf] at hkey'
      exact .inl hkey'
  obtain ⟨-, -, heq⟩ | ⟨key, -, -, heq⟩ | ⟨hclosed, heq⟩ := Selector.applyTrack_cases hi c
  · rw [heq]
    exact hkeys rfl
  · rw [heq]
    exact hkeys rfl
  · rw [heq]
    have hquiet := Quieter.setTracked (b := false) hclosed
    exact ⟨hquiet.next, hquiet.fd, fun f key h => .inl (hquiet.map f key h), rfl, hquiet.isOpen,
      hquiet.tracked⟩

/-- It keeps the books when its connection is marked tracked or closed. -/
theorem Books.applyTrack (hb : Books sel) (hlt : c < sel.next)
    (hc : sel.isOpen c = true → sel.tracked c = true) : Books (sel.applyTrack c) := by
  have hadds := applyTrack_adds hb.inv c
  refine ⟨hb.inv.applyTrack c, fun f key hkey => ?_, fun d hop => ?_, fun d hopen hlisted => ?_⟩
  · rw [hadds.next, hadds.fd]
    rcases hadds.map f key hkey with hold | ⟨hdata, hf⟩
    · exact hb.data f key hold
    · rw [hdata]
      exact ⟨hlt, hf.symm⟩
  · rw [hadds.next]
    rw [hadds.ops] at hop
    exact hb.ops d hop
  · rw [hadds.tracked d hopen]
    have hopen' := hadds.isOpen d hopen
    obtain ⟨f, key, hkey, hdata⟩ := hlisted
    rcases hadds.map f key hkey with hold | ⟨hdata', -⟩
    · exact hb.listed d hopen' ⟨f, key, hold, hdata⟩
    · have heq : d = c := hdata.symm.trans hdata'
      subst heq
      exact hc hopen'

/-- Marking a connection tracked keeps the books. -/
theorem Books.markTracked (hb : Books sel) (c : Nat) : Books (sel.setTracked c true) where
  inv := hb.inv.setTracked c true
  data f key hkey := by
    rw [Selector.fd_setTracked]
    exact hb.data f key hkey
  ops := hb.ops
  listed d hopen hlisted := by
    rw [Selector.isOpen_setTracked] at hopen
    rw [Selector.tracked_setTracked]
    split
    · rfl
    · exact hb.listed d hopen hlisted

/-- An operation is posted. -/
theorem Books.post (hb : Books sel) (hlt : c < sel.next) :
    Books { sel with ops := sel.ops ++ [.track c] } where
  inv := hb.inv.of_eq rfl (fun _ => rfl) (fun _ => rfl) rfl rfl
  data := hb.data
  ops d hop := by
    rcases List.mem_append.1 hop with hold | hnew
    · exact hb.ops d hold
    · rw [List.mem_singleton, Op.track.injEq] at hnew
      subst hnew
      exact hlt
  listed := hb.listed

theorem Books.track (hb : Books sel) (hlt : c < sel.next) (here : Bool) :
    Books (sel.track c here) := by
  have hmark : (sel.setTracked c true).tracked c = true := by
    rw [Selector.tracked_setTracked, if_pos rfl]
  rw [Selector.track]
  split
  · exact hb
  · split
    · exact (hb.markTracked c).applyTrack hlt fun _ => hmark
    · exact (hb.markTracked c).post hlt

theorem Books.postTrack (hb : Books sel) (hlt : c < sel.next) : Books (sel.postTrack c) :=
  (hb.markTracked c).post hlt

/-- The operation at the head of the queue, when it is a track, is of a connection that is marked
tracked or closed: nobody has borrowed it again. -/
def InTime (sel : Selector) : Prop :=
  match sel.ops with
  | .track c :: _ => sel.isOpen c = true → sel.tracked c = true
  | _ => True

instance (sel : Selector) : Decidable (InTime sel) :=
  match h : sel.ops with
  | .track c :: _ => decidable_of_iff (sel.isOpen c = true → sel.tracked c = true)
    (by simp [InTime, h])
  | .close _ :: _ => .isTrue (by simp [InTime, h])
  | [] => .isTrue (by simp [InTime, h])

/-- One round of `_drain_ops`. -/
theorem Books.drain (hb : Books sel) (htime : InTime sel) (h : sel.drain = some sel') :
    Books sel' := by
  rw [Selector.drain.eq_def] at h
  split at h
  · cases h
  · rename_i d rest hops
    cases h
    rw [InTime, hops] at htime
    have hmem : Op.track d ∈ sel.ops := by
      rw [hops]
      exact List.mem_cons_self
    have hrest :=
      (Quieter.popOp hops).books hb (hb.inv.of_eq rfl (fun _ => rfl) (fun _ => rfl) rfl rfl)
    exact hrest.applyTrack (hb.ops d hmem) htime
  · rename_i fd rest hops
    cases h
    have hrest :=
      (Quieter.popOp hops).books hb (hb.inv.of_eq rfl (fun _ => rfl) (fun _ => rfl) rfl rfl)
    exact (Quieter.unregister _ fd).books hrest (hrest.inv.unregister fd)

/-- `stop_tracking` takes the key away. -/
theorem Books.stopTracking (hb : Books sel) (c : Nat) : Books (sel.stopTracking c) := by
  have hquiet : Quieter sel (sel.unregisterSock c) := by
    rw [Selector.unregisterSock]
    split
    · exact Quieter.unregister sel _
    · exact Quieter.refl sel
  have hreg := hquiet.books hb (hb.inv.unregisterSock c)
  refine ⟨hb.inv.stopTracking c, fun f key hkey => ?_, fun d hop => ?_, fun d hopen hlisted => ?_⟩
  · rw [Selector.stopTracking, Selector.fd_setTracked, Selector.next_setTracked]
    exact hreg.data f key hkey
  · exact hreg.ops d hop
  · rw [Selector.stopTracking, Selector.isOpen_setTracked] at hopen
    rw [Selector.stopTracking, Selector.tracked_setTracked]
    split
    · rename_i hdc
      subst hdc
      -- The key of an open connection is the one under its descriptor, and that one is gone.
      exfalso
      have hopen' : sel.isOpen d = true := hquiet.isOpen d hopen
      obtain ⟨f, key, hkey, hdata⟩ := hlisted
      have hkey' : (sel.unregisterSock d).map f = some key := hkey
      have hf := (hreg.data f key hkey').2
      rw [hdata, hquiet.fd] at hf
      rw [Selector.unregisterSock, Selector.fileobjLookup_open hopen'] at hkey'
      simp only [Selector.map_unregister, hf, if_true] at hkey'
      cases hkey'
    · exact hreg.listed d hopen hlisted

/-! ## The invariant -/

/-- The invariant when `n` connections were accepted, with the modes of the sockets for which `P`
holds. -/
structure InvFor (P : Nat → Prop) (n : Nat) (s : State) : Prop where
  books : Books s.sel
  accepted : s.sel.next = n
  ctxs : ∀ k < s.next, (s.ctxs k).conn < n
  mode : ∀ c, P c → s.sel.isOpen c = true → s.sel.tracked c = true → s.timeout c = 0

/-- The invariant of the server. -/
abbrev Inv (n : Nat) : State → Prop := InvFor (fun _ => True) n

section

variable {P : Nat → Prop} {n : Nat} {s : State}

/-- What is not looked at may change. -/
theorem InvFor.of_same {t : State} (h : InvFor P n s) (hsel : t.sel = s.sel)
    (hnext : t.next = s.next)
    (hctxs : ∀ k, (t.ctxs k).conn = (s.ctxs k).conn) (htimeout : t.timeout = s.timeout) :
    InvFor P n t where
  books := by
    rw [hsel]
    exact h.books
  accepted := by
    rw [hsel]
    exact h.accepted
  ctxs k hk := by
    rw [hctxs]
    exact h.ctxs k (hnext ▸ hk)
  mode := by
    rw [hsel, htimeout]
    exact h.mode

theorem InvFor.quieter (h : InvFor P n s) {sel : Selector} (hquiet : Quieter s.sel sel)
    (hinv : sel.Inv) : InvFor P n { s with sel := sel } where
  books := hquiet.books h.books hinv
  accepted := hquiet.next.trans h.accepted
  ctxs := h.ctxs
  mode c hP hopen htracked := by
    rw [hquiet.tracked c hopen] at htracked
    exact h.mode c hP (hquiet.isOpen c hopen) htracked

/-- The mode of the one socket left out does not matter when its connection is closed or not
marked. -/
theorem InvFor.whole (h : InvFor (· ≠ c) n s)
    (hc : s.sel.isOpen c = true → s.sel.tracked c = true → s.timeout c = 0) : Inv n s where
  books := h.books
  accepted := h.accepted
  ctxs := h.ctxs
  mode d _ hopen htracked := by
    by_cases hd : d = c
    · subst hd
      exact hc hopen htracked
    · exact h.mode d hd hopen htracked

theorem InvFor.weaken (h : Inv n s) : InvFor P n s :=
  ⟨h.books, h.accepted, h.ctxs, fun c _ => h.mode c trivial⟩

/-- A request of an accepted connection gets a context. -/
theorem InvFor.newCtx (h : InvFor P n s) (hlt : c < n) (x : Ctx) (hx : x.conn = c) :
    InvFor P n { s with ctxs := Function.update s.ctxs s.next x, next := s.next + 1 } where
  books := h.books
  accepted := h.accepted
  ctxs k hk := by
    by_cases hnew : k = s.next
    · subst hnew
      simp only [Function.update_self, hx]
      exact hlt
    · simp only [Function.update_of_ne hnew]
      exact h.ctxs k (Nat.lt_of_le_of_ne (Nat.lt_succ_iff.1 hk) hnew)
  mode := h.mode

/-- A timeout is set. -/
theorem InvFor.setTimeout (h : InvFor (· ≠ c) n s) (t : ℚ) :
    InvFor (· ≠ c) n { s with timeout := Function.update s.timeout c t } where
  books := h.books
  accepted := h.accepted
  ctxs := h.ctxs
  mode d hd hopen htracked := by
    simp only [Function.update_of_ne hd]
    exact h.mode d hd hopen htracked

end

end LocalPost.Http.SocketMode
