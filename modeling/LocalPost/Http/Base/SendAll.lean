import LocalPost.Core.Lts
import LocalPost.Http.Types

/-!
# Sending a payload

`_send_all` calls `sock.send` until the payload is out. When the buffer of the kernel is full it
makes the socket blocking, with a timeout, and hands the rest to `sock.sendall`; on a tracked
connection the socket is non-blocking again on the way out.

The state has what the kernel has taken, byte by byte in order, and the mode of the socket. The
socket decides what each call does. `sendAll_exact`: at every moment the kernel has a prefix of the
payload, on return all of it, every run ends, and a tracked connection is left non-blocking.
-/

set_option autoImplicit false

namespace LocalPost.Http.Base.SendAll

open LocalPost.Core

/-- How the call ends. -/
inductive Exit where
  | returned
  | raised
  deriving DecidableEq, Repr

/-- Where the call is: in `sock.send(view[sent:])`, in `sock.settimeout(rw_timeout)`, in
`sock.sendall(view[sent:])`, of which the kernel has taken `drained` bytes, in the `finally`, or at
its end. -/
inductive Pc where
  | sending
  | settingTimeout
  | draining (drained : Nat)
  | restoring (exit : Exit)
  | ended (exit : Exit)
  deriving DecidableEq, Repr

/-- The local `sent`, what the kernel has taken, and the mode of the socket. -/
structure State where
  sent : Nat
  kernel : Bytes
  blocking : Bool
  pc : Pc
  deriving DecidableEq, Repr

/-- What the socket does: `send` takes a number of bytes and reports it, or finds the buffer full;
`sendall` hands some bytes over and goes on; a call returns, or raises, with a timeout or anything
else. -/
inductive Outcome where
  | sends (n : Nat)
  | blocks
  | takes (n : Nat)
  | returns
  | raises
  deriving DecidableEq, Repr

/-- `while sent < total`. -/
def loop (payload : Bytes) (s : State) : State :=
  { s with pc := if s.sent < payload.length then .sending else .ended .returned }

/-- The kernel takes the next `n` bytes behind the first `offset`. -/
def State.take (payload : Bytes) (offset n : Nat) (s : State) : State :=
  { s with kernel := s.kernel ++ (payload.drop offset).take n }

/-- `_send_all`, from one answer of the socket to the next. -/
def step (payload : Bytes) (tracked : Bool) (s : State) : Outcome → Option State
  | .sends n =>
    if s.pc = .sending ∧ s.sent + n ≤ payload.length then
      -- Nothing taken at all: `ConnectionAbortedError`.
      if n = 0 then some { s with pc := .ended .raised }
      else some (loop payload { s.take payload s.sent n with sent := s.sent + n })
    else none
  -- `BlockingIOError`: the rest goes through `sendall`.
  | .blocks => if s.pc = .sending then some { s with pc := .settingTimeout } else none
  | .takes n =>
    match s.pc with
    | .draining drained =>
      if 0 < n ∧ s.sent + drained + n ≤ payload.length then
        some { s.take payload (s.sent + drained) n with pc := .draining (drained + n) }
      else none
    | _ => none
  | .returns =>
    match s.pc with
    | .settingTimeout => some { s with blocking := true, pc := .draining 0 }
    | .draining drained =>
      -- `sendall` returns when it has handed over all of its argument.
      if s.sent + drained = payload.length then some { s with pc := .restoring .returned } else none
    | .restoring exit =>
      some { s with blocking := if tracked then false else s.blocking, pc := .ended exit }
    | _ => none
  | .raises =>
    match s.pc with
    -- Before the `try` nothing has to be restored.
    | .sending => some { s with pc := .ended .raised }
    | .settingTimeout => some { s with pc := .ended .raised }
    | .draining _ => some { s with pc := .restoring .raised }
    | _ => none

/-- The call with a socket in the given mode. -/
def start (payload : Bytes) (blocking : Bool) : State := loop payload ⟨0, [], blocking, .sending⟩

/-- `_send_all` on a connection. -/
def system (payload : Bytes) (tracked blocking : Bool) : Lts State Outcome where
  init := fun s => s = start payload blocking
  step := step payload tracked

/-! ## What one answer preserves -/

variable {payload : Bytes} {tracked blocking : Bool}

/-- What one answer of the socket makes of a state. -/
inductive Moves (payload : Bytes) (tracked : Bool) (s : State) : State → Prop where
  | sent {n : Nat} (hpc : s.pc = .sending) (hpos : n ≠ 0) (hroom : s.sent + n ≤ payload.length) :
      Moves payload tracked s (loop payload { s.take payload s.sent n with sent := s.sent + n })
  | blocked (hpc : s.pc = .sending) : Moves payload tracked s { s with pc := .settingTimeout }
  | timed (hpc : s.pc = .settingTimeout) :
      Moves payload tracked s { s with blocking := true, pc := .draining 0 }
  | taken {drained n : Nat} (hpc : s.pc = .draining drained) (hpos : 0 < n)
      (hroom : s.sent + drained + n ≤ payload.length) :
      Moves payload tracked s
        { s.take payload (s.sent + drained) n with pc := .draining (drained + n) }
  | drained {drained : Nat} (hpc : s.pc = .draining drained)
    (hall : s.sent + drained = payload.length) :
      Moves payload tracked s { s with pc := .restoring .returned }
  | interrupted {drained : Nat} (hpc : s.pc = .draining drained) :
      Moves payload tracked s { s with pc := .restoring .raised }
  | restored (exit : Exit) (hpc : s.pc = .restoring exit) :
      Moves payload tracked s
        { s with blocking := if tracked then false else s.blocking, pc := .ended exit }
  | failed (hpc : s.pc = .sending ∨ s.pc = .settingTimeout) :
      Moves payload tracked s { s with pc := .ended .raised }

/-- What an outcome of `send` does to the loop. -/
theorem moves_of_step {s t : State} {o : Outcome} (h : step payload tracked s o = some t) :
    Moves payload tracked s t := by
  cases o with
  | sends n =>
    -- a send of no bytes counts as a failure, any other one as bytes that went out
    rw [step] at h
    split at h
    · rename_i hsends
      split at h
      · cases h
        exact .failed (.inl hsends.1)
      · rename_i hn
        cases h
        exact .sent hsends.1 hn hsends.2
    · cases h
  | blocks =>
    rw [step] at h
    split at h
    · rename_i hsending
      cases h
      exact .blocked hsending
    · cases h
  | takes n =>
    rw [step] at h
    split at h
    · rename_i drained hdraining
      split at h
      · rename_i htakes
        cases h
        exact .taken hdraining htakes.1 htakes.2
      · cases h
    · cases h
  | returns =>
    -- what returns is `settimeout`, the blocking `sendall` or the restoring of the mode
    rw [step] at h
    split at h
    · rename_i hsetting
      cases h
      exact .timed hsetting
    · rename_i drained hdraining
      -- `sendall` returns only when it has taken all that was left
      split at h
      · rename_i hall
        cases h
        exact .drained hdraining hall
      · cases h
    · rename_i exit hrestoring
      cases h
      exact .restored exit hrestoring
    · cases h
  | raises =>
    rw [step] at h
    -- what raises is the send, `settimeout` or `sendall`, each with its own way out
    split at h
    · rename_i hsending
      cases h
      exact .failed (.inl hsending)
    · rename_i hsetting
      cases h
      exact .failed (.inr hsetting)
    · rename_i drained hdraining
      cases h
      exact .interrupted hdraining
    · cases h

/-- The kernel has the first `n` bytes of the payload. -/
def Has (payload : Bytes) (n : Nat) (s : State) : Prop :=
  n ≤ payload.length ∧ s.kernel = payload.take n

/-- What is out, by where the call is. -/
def Accounted (payload : Bytes) (s : State) : Prop :=
  match s.pc with
  | .sending => Has payload s.sent s
  | .settingTimeout => Has payload s.sent s
  | .draining drained => Has payload (s.sent + drained) s
  | .restoring .returned => s.kernel = payload
  | .restoring .raised => s.kernel <+: payload
  | .ended .returned => s.kernel = payload
  | .ended .raised => s.kernel <+: payload

theorem Has.isPrefix {n : Nat} {s : State} (h : Has payload n s) : s.kernel <+: payload := by
  rw [h.2]
  exact List.take_prefix n payload

theorem Has.take {offset n : Nat} {s : State} (h : Has payload offset s)
    (hn : offset + n ≤ payload.length) : Has payload (offset + n) (s.take payload offset n) := by
  refine ⟨hn, ?_⟩
  rw [State.take, h.2, List.take_add]

theorem accounted_loop {s : State} (h : Has payload s.sent s) :
    Accounted payload (loop payload s) := by
  rw [Accounted, loop]
  by_cases hmore : s.sent < payload.length
  · simp only [if_pos hmore]
    exact h
  · simp only [if_neg hmore]
    have hall : payload.length ≤ s.sent := Nat.le_of_not_lt hmore
    exact h.2.trans (List.take_of_length_le hall)

/-- What has been sent and what is left make up the payload, after every outcome. -/
theorem accounted_step {s t : State} {o : Outcome} (h : Accounted payload s)
    (hstep : step payload tracked s o = some t) : Accounted payload t := by
  rw [Accounted] at h
  -- Bytes only leave at a send or inside `sendall`; every other move keeps the count.
  cases moves_of_step hstep with
  | sent hpc hpos hroom =>
    rw [hpc] at h
    exact accounted_loop (Has.take h hroom)
  | blocked hpc =>
    rw [hpc] at h
    exact h
  | timed hpc =>
    rw [hpc] at h
    exact h
  | taken hpc hpos hroom =>
    rw [hpc] at h
    have htake := Has.take h hroom
    rw [Nat.add_assoc] at htake
    exact htake
  | drained hpc hall =>
    rw [hpc] at h
    -- `sendall` has taken the whole rest, so what is out is the payload
    exact h.2.trans (List.take_of_length_le (Nat.le_of_eq hall.symm))
  | interrupted hpc =>
    rw [hpc] at h
    exact Has.isPrefix h
  | restored exit hpc =>
    -- the mode that is restored has nothing to do with what has been sent
    rw [hpc] at h
    cases exit with
    | returned => exact h
    | raised => exact h
  | failed hpc =>
    have hhas : Has payload s.sent s := by
      cases hpc with
      | inl hpc =>
        rw [hpc] at h
        exact h
      | inr hpc =>
        rw [hpc] at h
        exact h
    exact hhas.isPrefix

/-- On a tracked connection the socket is blocking only between the two `settimeout`s. -/
def ModeKept (s : State) : Prop :=
  match s.pc with
  | .draining _ => True
  | .restoring _ => True
  | _ => s.blocking = false

theorem modeKept_loop {s : State} (h : s.blocking = false) : ModeKept (loop payload s) := by
  rw [ModeKept, loop]
  by_cases hmore : s.sent < payload.length
  · simp only [if_pos hmore]
    exact h
  · simp only [if_neg hmore]
    exact h

/-- The socket is in the mode of its stage, after every outcome. -/
theorem modeKept_step {s t : State} {o : Outcome} (h : ModeKept s)
    (hstep : step payload true s o = some t) : ModeKept t := by
  rw [ModeKept] at h
  cases moves_of_step hstep with
  | sent hpc hpos hroom =>
    rw [hpc] at h
    exact modeKept_loop h
  | blocked hpc =>
    rw [hpc] at h
    exact h
  | timed hpc => trivial
  | taken hpc hpos hroom => trivial
  | drained hpc hall => trivial
  | interrupted hpc => trivial
  | restored exit hpc => exact rfl
  | failed hpc =>
    cases hpc with
    | inl hpc =>
      rw [hpc] at h
      exact h
    | inr hpc =>
      rw [hpc] at h
      exact h

/-- What is left to do. -/
def rank (payload : Bytes) (s : State) : Nat :=
  match s.pc with
  | .sending => payload.length - s.sent + 4
  | .settingTimeout => payload.length - s.sent + 3
  | .draining drained => payload.length - (s.sent + drained) + 2
  | .restoring _ => 1
  | .ended _ => 0

theorem rank_loop (payload : Bytes) (s : State) :
    rank payload (loop payload s) ≤ payload.length - s.sent + 4 := by
  rw [rank, loop]
  by_cases hmore : s.sent < payload.length
  · simp only [if_pos hmore]
    exact Nat.le_of_eq rfl
  · simp only [if_neg hmore]
    exact Nat.zero_le _

/-- Every outcome brings the loop nearer to its end. -/
theorem rank_step {s t : State} {o : Outcome} (hstep : step payload tracked s o = some t) :
    rank payload t < rank payload s := by
  -- Each place has a smaller rank than the one before, except the loop, which sends a byte.
  cases moves_of_step hstep with
  | sent hpc hpos hroom =>
    rename_i n
    have hrank : rank payload s = payload.length - s.sent + 4 := by rw [rank, hpc]
    rw [hrank]
    apply Nat.lt_of_le_of_lt (rank_loop payload _)
    change payload.length - (s.sent + n) + 4 < _
    omega
  | blocked hpc =>
    rw [rank, rank, hpc]
    exact Nat.lt_succ_self _
  | timed hpc =>
    rw [rank, rank, hpc]
    exact Nat.lt_succ_self _
  | taken hpc hpos hroom =>
    rename_i drained n
    have hrank : rank payload s = payload.length - (s.sent + drained) + 2 := by rw [rank, hpc]
    rw [hrank]
    -- inside `sendall` the rest gets shorter
    change payload.length - (s.sent + (drained + n)) + 2 < _
    omega
  | drained hpc hall =>
    rw [rank, rank, hpc]
    exact Nat.succ_lt_succ (Nat.succ_pos _)
  | interrupted hpc =>
    rw [rank, rank, hpc]
    exact Nat.succ_lt_succ (Nat.succ_pos _)
  | restored exit hpc =>
    rw [rank, rank, hpc]
    exact Nat.succ_pos _
  | failed hpc =>
    cases hpc with
    | inl hpc =>
      rw [rank, rank, hpc]
      exact Nat.succ_pos _
    | inr hpc =>
      rw [rank, rank, hpc]
      exact Nat.succ_pos _

/-- Before the end the socket can answer. -/
theorem step_of_not_ended {s : State} (h : ∀ exit, s.pc ≠ .ended exit) :
    ∃ o t, step payload tracked s o = some t := by
  cases hpc : s.pc with
  | sending => exact ⟨.raises, _, by rw [step, hpc]⟩
  | settingTimeout => exact ⟨.raises, _, by rw [step, hpc]⟩
  | draining drained => exact ⟨.raises, _, by rw [step, hpc]⟩
  | restoring exit => exact ⟨.returns, _, by rw [step, hpc]⟩
  | ended exit => exact absurd hpc (h exit)

/-- For every payload and every sequence of answers of the socket: what the kernel has taken is at
every moment a prefix of the payload, and on return all of it; the call has at most as many answers
as the payload has bytes, and four more; before its end it goes on; and at its end a tracked
connection, whose socket was non-blocking, has it non-blocking again. -/
theorem sendAll_exact (payload : Bytes) (tracked blocking : Bool) (outcomes : List Outcome)
    (s : State)
    (hrun : (system payload tracked blocking).exec (start payload blocking) outcomes = some s) :
    s.kernel <+: payload ∧ (s.pc = .ended .returned → s.kernel = payload) ∧
      outcomes.length ≤ payload.length + 4 ∧
      ((∃ exit, s.pc = .ended exit) ∨ ∃ o t, (system payload tracked blocking).step s o = some t) ∧
      (tracked = true → blocking = false → ∀ exit, s.pc = .ended exit → s.blocking = false) := by
  have hstart : Accounted payload (start payload blocking) :=
    accounted_loop ⟨Nat.zero_le _, List.take_zero.symm⟩
  have haccounted : Accounted payload s :=
    Lts.exec_invariant (I := Accounted payload)
      (fun _ _ _ h hstep => accounted_step h hstep) hstart hrun
  refine ⟨?_, fun hend => ?_, ?_, ?_, ?_⟩
  -- A prefix: in each place of the loop the kernel has what was sent so far.
  · rw [Accounted] at haccounted
    cases hpc : s.pc with
    | sending =>
      rw [hpc] at haccounted
      exact Has.isPrefix haccounted
    | settingTimeout =>
      rw [hpc] at haccounted
      exact Has.isPrefix haccounted
    | draining drained =>
      rw [hpc] at haccounted
      exact Has.isPrefix haccounted
    | restoring exit =>
      rw [hpc] at haccounted
      cases exit with
      | returned => exact ⟨[], by rw [haccounted, List.append_nil]⟩
      | raised => exact haccounted
    | ended exit =>
      rw [hpc] at haccounted
      cases exit with
      | returned => exact ⟨[], by rw [haccounted, List.append_nil]⟩
      | raised => exact haccounted
  · rw [Accounted, hend] at haccounted
    exact haccounted
  -- Every answer uses up a byte or one of the four steps around the loop.
  · have hle := Lts.length_add_rank_le (rank payload) (I := fun _ => True)
      (fun _ _ _ _ _ => trivial) (fun _ _ _ _ hstep => rank_step hstep) trivial hrun
    have hloop : rank payload (start payload blocking) ≤ payload.length - 0 + 4 :=
      rank_loop payload _
    omega
  · by_cases hended : ∃ exit, s.pc = .ended exit
    · exact .inl hended
    · exact .inr (step_of_not_ended fun exit hexit => hended ⟨exit, hexit⟩)
  · rintro rfl rfl exit hend
    have hkept : ModeKept s := Lts.exec_invariant (I := ModeKept)
      (fun _ _ _ h hstep => modeKept_step h hstep) (modeKept_loop rfl) hrun
    rw [ModeKept, hend] at hkept
    exact hkept

/-- Two bytes, then a full buffer, then the last one through `sendall`. -/
theorem sendAll_exact_drained :
    ∃ s, (system [1, 2, 3] true false).exec (start [1, 2, 3] false)
        [.sends 2, .blocks, .returns, .takes 1, .returns, .returns] = some s ∧
      s.kernel = [1, 2, 3] ∧ s.blocking = false := by
  have hrun : (system [1, 2, 3] true false).exec (start [1, 2, 3] false)
      [.sends 2, .blocks, .returns, .takes 1, .returns, .returns] =
        some ⟨2, [1, 2, 3], false, .ended .returned⟩ := by decide
  have hexact := sendAll_exact [1, 2, 3] true false _ _ hrun
  exact ⟨_, hrun, hexact.2.1 rfl, hexact.2.2.2.2 rfl rfl .returned rfl⟩

end LocalPost.Http.Base.SendAll
