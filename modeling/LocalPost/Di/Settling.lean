import LocalPost.Di.Progress

/-!
# Every resolution comes to an end

Once nothing new is asked for, the code of `resolve`, `scope` and `ExitStack` has boundedly many
steps left, in whatever order the threads take them, and they do not stop before every thread is
idle. The bound needs that no service of a scope depends on itself through services of the same
scope (`World.ranked`). A dependency is then of a lower rank at the same provider, or lies further
out (`Priced`), and a level of a thread is worth more than what it can turn into (`Frame.weight`).
-/

set_option autoImplicit false

namespace LocalPost.Di

open LocalPost.Core

/-! ## What a level is worth -/

/-- What a call is worth: `b` dependencies at most, each of a lower height. -/
def cost (b : Nat) : Nat → Nat
  | 0 => 10
  | h + 1 => b * (cost b h + 2) + cost b h + 1

theorem ten_le_cost (b h : Nat) : 10 ≤ cost b h := by
  induction h with
  | zero => exact Nat.le_refl _
  | succ h ih =>
    rw [cost]
    omega

theorem cost_lt_succ (b h : Nat) :
    b * (cost b h + 2) + cost b h < cost b (h + 1) := Nat.lt_succ_self _

theorem cost_mono {b h h' : Nat} (hle : h ≤ h') : cost b h ≤ cost b h' := by
  induction hle with
  | refl => exact Nat.le_refl _
  | step _ ih =>
    exact Nat.le_trans ih
      (Nat.le_of_lt (Nat.lt_of_le_of_lt (Nat.le_add_left _ _) (cost_lt_succ b _)))

theorem cost_lt {b h h' : Nat} (hlt : h < h') : cost b h < cost b h' := by
  have hstep : cost b h < cost b (h + 1) :=
    Nat.lt_of_le_of_lt (Nat.le_add_left _ _) (cost_lt_succ b h)
  exact Nat.lt_of_lt_of_le hstep (cost_mono hlt)

section

variable (height : Nat → Ty → Nat) (b : Nat)

/-- What the calls for these services at provider `p` are worth, with the step that begins each and
the reply to it. -/
def worth (p : Nat) (tys : List Ty) : Nat := (tys.map fun ty => cost b (height p ty) + 2).sum

/-- What a level is worth. -/
def Frame.weight : Frame → Nat
  | .block _ => 2
  | .entering p eager => worth height b p eager + 3
  | .leaving _ => 1
  | .closing _ => 1
  | .looking c => cost b (height c.provider c.ty)
  | .locking c => cost b (height c.provider c.ty) - 1
  | .rechecking c => cost b (height c.provider c.ty) - 2
  | .wiring c _ deps _ => worth height b c.provider deps + 6
  | .running _ _ _ => 5

/-- What a thread is worth. -/
def Thread.weight (th : Thread) : Nat :=
  (th.stack.map (Frame.weight height b)).sum + if th.reply.isSome then 1 else 0

/-- What the threads and the exit callbacks are worth. -/
def World.weight (s : World) : Nat :=
  (s.threads.map (Thread.weight height b)).sum + (s.providers.map fun k => 3 * k.exits.length).sum

/-- The heights fit the providers: what is further out, and what is depended on, is lower. -/
structure Priced (ps : List Provider) : Prop where
  climbs : ∀ (p : Nat) (k : Provider) (q : Nat) (ty : Ty), ps[p]? = some k →
    k.descriptor ty = none → k.parent = some q → height q ty < height p ty
  wires : ∀ (p : Nat) (k : Provider) (ty : Ty) (d : ServiceDescriptor), ps[p]? = some k →
    k.descriptor ty = some d → d.factory.deps.length ≤ b ∧ ∀ dep ∈ d.factory.deps,
      height p dep < height p ty

end

section

variable {height : Nat → Ty → Nat} {b : Nat}

theorem worth_cons (p : Nat) (ty : Ty) (tys : List Ty) :
    worth height b p (ty :: tys) = cost b (height p ty) + 2 + worth height b p tys := rfl

/-- Services that lie lower together are worth less than a call that has them for dependencies. -/
theorem worth_lt {p m : Nat} {tys : List Ty} (hlength : tys.length ≤ b)
    (hlower : ∀ ty ∈ tys, height p ty < m) : worth height b p tys + 8 < cost b m := by
  cases m with
  | zero =>
    cases tys with
    | nil => exact (by decide : 8 < 10)
    | cons ty tys => exact absurd (hlower ty List.mem_cons_self) (Nat.not_lt_zero _)
  | succ m =>
    have hle : worth height b p tys ≤ tys.length * (cost b m + 2) := by
      clear hlength
      induction tys with
      | nil => exact Nat.zero_le _
      | cons ty tys ih =>
        have hrest := ih fun ty' hty' => hlower ty' (List.mem_cons_of_mem _ hty')
        have hty : cost b (height p ty) ≤ cost b m :=
          cost_mono (Nat.le_of_lt_succ (hlower ty List.mem_cons_self))
        rw [worth_cons, List.length_cons, Nat.succ_mul]
        omega
    have hb : tys.length * (cost b m + 2) ≤ b * (cost b m + 2) := Nat.mul_le_mul_right _ hlength
    have hten := ten_le_cost b m
    have hcost := cost_lt_succ b m
    omega

theorem Priced.mono {ps qs : List Provider} (h : Priced height b ps) (hgrows : Grows qs ps) :
    Priced height b qs := by
  constructor
  · intro p k q ty hk hd hq
    obtain ⟨k', hk', hparent, -, hdescriptor⟩ := hgrows p k hk
    exact h.climbs p k' q ty hk' ((hdescriptor ty).trans hd) (hparent.trans hq)
  · intro p k ty d hk hd
    obtain ⟨k', hk', -, -, hdescriptor⟩ := hgrows p k hk
    exact h.wires p k' ty d hk' ((hdescriptor ty).trans hd)

/-! ## What a step costs -/

variable {s u : World} {t : Nat} {th : Thread}

/-- Nothing but a thread changes. -/
theorem weight_lt_of_thread (hth : s.threads[t]? = some th) {th' : Thread}
    (hthreads : u.threads = s.threads.set t th') (hproviders : u.providers = s.providers)
    (hlt : th'.weight height b < th.weight height b) : u.weight height b < s.weight height b := by
  have hsum := sum_map_set_add (Thread.weight height b) th' hth
  rw [World.weight, World.weight, hthreads, hproviders]
  omega

/-- A thread changes, and a provider's exit callbacks. -/
theorem weight_lt_of_exits (hth : s.threads[t]? = some th) {th' : Thread}
    (hthreads : u.threads = s.threads.set t th') {p : Nat} {k k' : Provider}
    (hk : s.providers[p]? = some k) (hproviders : u.providers = s.providers.set p k')
    (hlt : th'.weight height b + 3 * k'.exits.length < th.weight height b + 3 * k.exits.length) :
    u.weight height b < s.weight height b := by
  have hsum := sum_map_set_add (Thread.weight height b) th' hth
  have hexits := sum_map_set_add (fun k : Provider => 3 * k.exits.length) k' hk
  rw [World.weight, World.weight, hthreads, hproviders]
  omega

theorem Thread.weight_cons (f : Frame) (stack : List Frame) (reply : Option Reply) :
    Thread.weight height b ⟨f :: stack, reply⟩ = f.weight height b + Thread.weight height
      b ⟨stack, reply⟩ := by
  simp only [Thread.weight, List.map_cons, List.sum_cons, Nat.add_assoc]

theorem Thread.weight_some (stack : List Frame) (r : Reply) :
    Thread.weight height b ⟨stack, some r⟩ = Thread.weight height b ⟨stack, none⟩ + 1 := rfl

/-- Every step that asks for nothing new lowers what is left. -/
theorem Moves.weight_lt {a : Act} (hpriced : Priced height b s.providers)
    (hth : s.threads[t]? = some th) (hsettles : a.settles = true) (hmoves : Moves s t th a u) :
    u.weight height b < s.weight height b := by
  cases hmoves with
  | asks hfree hp => cases hsettles
  | enters hfree hparent => cases hsettles
  | leaves hth' =>
    subst hth'
    refine weight_lt_of_thread hth rfl rfl ?_
    simp only [Thread.weight_cons, Frame.weight]
    omega
  | @produces a f c injected stack k d hth' hf hk hd =>
    subst hth'
    refine weight_lt_of_exits hth rfl hk rfl ?_
    have hlength : (k.exits ++ [s.instances.length]).length = k.exits.length +
      1 := List.length_append
    have hframe : 5 ≤ f.weight height b := by
      rcases hf with ⟨found, rfl⟩ | ⟨found, rfl⟩
      · exact Nat.le_refl _
      · rw [Frame.weight]
        omega
    rw [Thread.weight_cons, Thread.weight_some]
    dsimp only
    omega
  | fails hth' =>
    subst hth'
    refine weight_lt_of_thread hth rfl rfl ?_
    rw [Thread.weight_cons, Thread.weight_some, Frame.weight]
    omega
  | cleaned hth' =>
    subst hth'
    refine weight_lt_of_thread hth rfl rfl ?_
    rw [Thread.weight_cons, Frame.weight]
    omega
  | @knows truthy c stack r hth' hr hty =>
    subst hth'
    refine weight_lt_of_thread hth rfl rfl ?_
    have hten := ten_le_cost b (height c.provider c.ty)
    rw [Thread.weight_cons, Thread.weight_some, Frame.weight]
    omega
  | @finds a f c stack k i hth' hf hk hi =>
    subst hth'
    refine weight_lt_of_thread hth rfl rfl ?_
    have hten := ten_le_cost b (height c.provider c.ty)
    have hframe : 8 ≤ f.weight height b := by
      rcases hf with rfl | rfl
      · rw [Frame.weight]
        omega
      · rw [Frame.weight]
        omega
    rw [Thread.weight_cons, Thread.weight_some]
    omega
  | @misses truthy c stack k d hth' hk hd =>
    subst hth'
    refine weight_lt_of_thread hth rfl rfl ?_
    have hten := ten_le_cost b (height c.provider c.ty)
    simp only [Thread.weight_cons, Frame.weight]
    omega
  -- The parent lies lower.
  | @climbs truthy c stack k q hth' hk hd hq =>
    subst hth'
    refine weight_lt_of_thread hth rfl rfl ?_
    have hlower : cost b (height q c.ty) < cost b (height c.provider c.ty) :=
      cost_lt (hpriced.climbs _ k q c.ty hk hd hq)
    simp only [Thread.weight_cons, Frame.weight]
    omega
  | @unregistered truthy c stack hth' =>
    subst hth'
    refine weight_lt_of_thread hth rfl rfl ?_
    have hten := ten_le_cost b (height c.provider c.ty)
    rw [Thread.weight_cons, Thread.weight_some, Frame.weight]
    omega
  | @locks c stack hth' hlock =>
    subst hth'
    refine weight_lt_of_thread hth rfl rfl ?_
    have hten := ten_le_cost b (height c.provider c.ty)
    simp only [Thread.weight_cons, Frame.weight]
    omega
  -- All dependencies lie lower.
  | @begins truthy c stack k d hth' hk hd hcached =>
    subst hth'
    refine weight_lt_of_thread hth rfl rfl ?_
    obtain ⟨hlength, hlower⟩ := hpriced.wires _ k c.ty d hk hd
    have hworth := worth_lt hlength hlower
    simp only [Thread.weight_cons, Frame.weight]
    omega
  | wires hth' =>
    subst hth'
    refine weight_lt_of_thread hth rfl rfl ?_
    simp only [Thread.weight_cons, Frame.weight, worth_cons]
    omega
  | calls hth' =>
    subst hth'
    refine weight_lt_of_thread hth rfl rfl ?_
    simp only [Thread.weight_cons, Frame.weight]
    omega
  | injects hth' =>
    subst hth'
    refine weight_lt_of_thread hth rfl rfl ?_
    simp only [Thread.weight_some, Thread.weight_cons, Frame.weight]
    omega
  | aborts hth' =>
    subst hth'
    refine weight_lt_of_thread hth rfl rfl ?_
    simp only [Thread.weight_some, Thread.weight_cons, Frame.weight]
    omega
  | gives_up hth' =>
    subst hth'
    refine weight_lt_of_thread hth rfl rfl ?_
    simp only [Thread.weight_some, Thread.weight_cons, Frame.weight]
    omega
  | goes_on hreply htop =>
    obtain ⟨stack, reply⟩ := th
    cases hreply
    refine weight_lt_of_thread hth rfl rfl ?_
    rw [Thread.weight_some]
    exact Nat.lt_succ_self _
  | resolves hth' =>
    subst hth'
    refine weight_lt_of_thread hth rfl rfl ?_
    simp only [Thread.weight_cons, Frame.weight, worth_cons]
    omega
  | opens hth' =>
    subst hth'
    refine weight_lt_of_thread hth rfl rfl ?_
    simp only [Thread.weight_cons, Frame.weight]
    omega
  -- The cleanup is worth less than the callback.
  | @pops p stack k i a hth' hk hi ha =>
    subst hth'
    refine weight_lt_of_exits hth rfl hk rfl ?_
    have hne : k.exits ≠ [] := by
      intro hnil
      rw [hnil] at hi
      cases hi
    have hlength : k.exits.dropLast.length + 1 = k.exits.length := by
      rw [List.length_dropLast]
      exact Nat.sub_add_cancel (List.length_pos_iff.2 hne)
    dsimp only
    split
    · simp only [Thread.weight_cons, Frame.weight]
      omega
    · omega
  | @is_left p stack k hth' hk hexits =>
    subst hth'
    refine weight_lt_of_exits hth rfl hk rfl ?_
    rw [Thread.weight_cons, Frame.weight]
    dsimp only
    omega

end

/-! ## Ranks and heights -/

/-- A new scope's registry: no service depends on itself, as far as services of one scope go. -/
def World.ranked (rank : Ty → Ty → Nat) (_ : World) : Act → Bool
  | .enter _ _ descriptors _ => descriptors.all fun d => d.factory.deps.all fun dep =>
      descriptors.all fun d' => !decide (d'.service_type = dep ∧ d'.scope_type = d.scope_type) ||
        decide (rank d.scope_type dep < rank d.scope_type d.service_type)
  | _ => true

/-- A dependency that the provider itself has is of a lower rank. -/
def Ranked (rank : Ty → Ty → Nat) (ps : List Provider) : Prop :=
  ∀ (p : Nat) (k : Provider) (ty dep : Ty) (d d' : ServiceDescriptor), ps[p]? = some k →
    k.descriptor ty = some d → dep ∈ d.factory.deps → k.descriptor dep = some d' →
      rank k.scope_type dep < rank k.scope_type ty

theorem Ranked.mono {rank : Ty → Ty → Nat} {ps qs : List Provider} (h : Ranked rank ps)
    (hgrows : Grows qs ps) : Ranked rank qs := by
  intro p k ty dep d d' hk hd hdep hd'
  obtain ⟨k', hk', -, hscope, hdescriptor⟩ := hgrows p k hk
  rw [← hscope]
  exact h p k' ty dep d d' hk' ((hdescriptor ty).trans hd) hdep ((hdescriptor dep).trans hd')

/-- What stands in a registry was registered under its own types. -/
theorem mem_of_get?_register {descriptors : List ServiceDescriptor} {registry : Registry}
    {key : Ty × Ty}
    {d : ServiceDescriptor}
    (h : Dict.get? key (descriptors.foldl Registry.register registry) = some d) :
    (d ∈ descriptors ∧ (d.service_type, d.scope_type) = key) ∨ Dict.get? key registry = some d := by
  induction descriptors generalizing registry with
  | nil => exact .inr h
  | cons d' descriptors ih =>
    rcases ih h with ⟨hmem, hkey⟩ | hget
    · exact .inl ⟨List.mem_cons_of_mem _ hmem, hkey⟩
    · rw [Registry.register, Dict.get?_set] at hget
      split at hget
      · rename_i hkey
        cases hget
        exact .inl ⟨List.mem_cons_self, hkey⟩
      · exact .inr hget

theorem mem_of_descriptor {parent : Option Nat} {descriptors : List ServiceDescriptor}
    {scopeType ty : Ty}
    {d : ServiceDescriptor}
    (h : (World.provide parent descriptors scopeType).descriptor ty = some d) :
    d ∈ descriptors ∧ d.service_type = ty ∧ d.scope_type = scopeType := by
  rcases mem_of_get?_register h with ⟨hmem, hkey⟩ | hget
  · cases hkey
    exact ⟨hmem, rfl, rfl⟩
  · cases hget

section

variable {s u : World} {t : Nat} {th : Thread}

/-- A step enters a scope, or the providers were there before it. -/
theorem Moves.shrinks {a : Act} (h : Moves s t th a u) : Grows u.providers s.providers ∨
    ∃ parent descriptors scopeType, a = .enter t parent descriptors scopeType ∧
      u.providers = s.providers ++ [World.provide parent descriptors scopeType] := by
  -- one provider is replaced by another with the same parent, registry and scope type
  have hset : ∀ {p : Nat} {k k' : Provider}, s.providers[p]? = some k → k'.parent = k.parent →
      k'.scope_type = k.scope_type → k'.registry = k.registry →
          Grows (s.providers.set p k') s.providers := by
    intro p k k' hk hparent hscope hregistry q kq hq
    rw [getElem?_set_iff hk] at hq
    split at hq
    · rename_i heq
      subst heq
      subst hq
      refine ⟨k, hk, hparent.symm, hscope.symm, fun ty => ?_⟩
      rw [Provider.descriptor, Provider.descriptor, hscope, hregistry]
    · exact ⟨kq, hq, rfl, rfl, fun _ => rfl⟩
  cases h with
  | enters hfree hparent => exact .inr ⟨_, _, _, rfl, rfl⟩
  | produces hth hf hk hd => exact .inl (hset hk rfl rfl rfl)
  | pops hth hk hi ha => exact .inl (hset hk rfl rfl rfl)
  | is_left hth hk hexits => exact .inl (hset hk rfl rfl rfl)
  | _ => exact .inl (.refl _)

/-- A new registry with the rank keeps the rank of all. -/
theorem Ranked.moves {rank : Ty → Ty → Nat} {a : Act} (h : Ranked rank s.providers)
    (hcond : s.ranked rank a = true) (hmoves : Moves s t th a u) : Ranked rank u.providers := by
  rcases hmoves.shrinks with hshrinks | ⟨parent, descriptors, scopeType, rfl, hproviders⟩
  · exact h.mono hshrinks
  · intro p k ty dep d d' hk hd hdep hd'
    rw [hproviders] at hk
    rcases getElem?_concat_iff.1 hk with hk | ⟨-, rfl⟩
    · exact h p k ty dep d d' hk hd hdep hd'
    · obtain ⟨hmem, rfl, hscope⟩ := mem_of_descriptor hd
      obtain ⟨hmem', rfl, hscope'⟩ := mem_of_descriptor hd'
      have hall :=
        List.all_eq_true.1 (List.all_eq_true.1 (List.all_eq_true.1 hcond d hmem) _ hdep) d' hmem'
      rw [decide_eq_true ⟨rfl, hscope'.trans hscope.symm⟩, Bool.not_true,
        Bool.false_or, hscope] at hall
      exact of_decide_eq_true hall

end

/-- The height of a service at provider `p`: further out is lower, and what the provider does not
have is lower than what it has. -/
def heightIn (rank : Ty → Ty → Nat) (ps : List Provider) (r p : Nat) (ty : Ty) : Nat :=
  p * (r + 2) +
    ((ps[p]?).bind fun k => (k.descriptor ty).map fun _ => rank k.scope_type ty + 1).getD 0

/-- A lookup in a registry finds one of its entries. -/
theorem mem_of_get? {key : Ty × Ty} {d : ServiceDescriptor} {registry : Registry}
    (h : Dict.get? key registry = some d) : (key, d) ∈ registry := by
  induction registry with
  | nil => cases h
  | cons e registry ih =>
    rw [Dict.get?_cons] at h
    split at h
    · rename_i hkey
      cases h
      subst hkey
      exact List.mem_cons_self
    · exact List.mem_cons_of_mem _ (ih h)

/-- The ranks of what is registered have a bound, and so have the lists of dependencies. -/
theorem exists_bound (rank : Ty → Ty → Nat) (ps : List Provider) :
    ∃ r, ∀ (p : Nat) (k : Provider) (ty : Ty)
    (d : ServiceDescriptor), ps[p]? = some k → k.descriptor ty = some d →
      rank k.scope_type ty ≤ r ∧ d.factory.deps.length ≤ r := by
  -- the largest value at one provider first
  have hone : ∀ k : Provider, ∃ r, ∀ (ty : Ty) (d : ServiceDescriptor), k.descriptor ty = some d →
      max (rank k.scope_type ty) d.factory.deps.length ≤ r := by
    intro k
    obtain ⟨r, hr⟩ := exists_forall_mem_le k.registry fun e =>
      max (rank e.1.2 e.1.1) e.2.factory.deps.length
    exact ⟨r, fun ty d hd => hr _ (mem_of_get? hd)⟩
  obtain ⟨r, hr⟩ := exists_forall_mem_le ps fun k => (hone k).choose
  refine ⟨r, fun p k ty d hk hd => ?_⟩
  have hmax := Nat.le_trans ((hone k).choose_spec ty d hd) (hr k (List.mem_of_getElem? hk))
  exact ⟨Nat.le_trans (Nat.le_max_left _ _) hmax, Nat.le_trans (Nat.le_max_right _ _) hmax⟩

/-- The height falls on the way to an outer provider, whatever the types. -/
theorem heightIn_lt {rank : Ty → Ty → Nat} {ps : List Provider} {r p q : Nat} {ty ty' : Ty}
    (hbound : ∀ (p : Nat) (k : Provider) (ty : Ty) (d : ServiceDescriptor), ps[p]? = some k →
      k.descriptor ty = some d → rank k.scope_type ty ≤ r ∧ d.factory.deps.length ≤ r)
        (hlt : q < p) :
    heightIn rank ps r q ty < heightIn rank ps r p ty' := by
  have hrow :
      ((ps[q]?).bind fun k => (k.descriptor ty).map fun _ => rank k.scope_type ty + 1).getD 0 ≤
        r + 1 := by
    cases hk : ps[q]? with
    | none => exact Nat.zero_le _
    | some k =>
      rw [Option.bind_some]
      cases hd : k.descriptor ty with
      | none => exact Nat.zero_le _
      | some d => exact Nat.succ_le_succ (hbound q k ty d hk hd).1
  have hmul : (q + 1) * (r + 2) ≤ p * (r + 2) := Nat.mul_le_mul_right _ hlt
  rw [Nat.succ_mul] at hmul
  rw [heightIn, heightIn]
  omega

theorem heightIn_of_descriptor {rank : Ty → Ty → Nat} {ps : List Provider} {p : Nat} {k : Provider}
    {ty : Ty} (r : Nat) (hk : ps[p]? = some k) :
    heightIn rank ps r p ty = p * (r + 2) +
      ((k.descriptor ty).map fun _ => rank k.scope_type ty + 1).getD 0 := by
  rw [heightIn, hk, Option.bind_some]

/-- Ranked registries have heights that fit. -/
theorem Ranked.priced {rank : Ty → Ty → Nat} {ps : List Provider} (h : Ranked rank ps)
    (hparents : ∀ (p : Nat) (k : Provider) (q : Nat), ps[p]? = some k → k.parent = some q → q < p) :
    ∃ height b, Priced height b ps := by
  obtain ⟨r, hbound⟩ := exists_bound rank ps
  refine ⟨heightIn rank ps r, r, fun p k q ty hk _ hq => heightIn_lt hbound (hparents p k q hk hq),
    fun p k ty d hk hd => ⟨(hbound p k ty d hk hd).2, fun dep hdep => ?_⟩⟩
  rw [heightIn_of_descriptor r hk, heightIn_of_descriptor r hk, hd]
  cases hd' : k.descriptor dep with
  | none => exact Nat.add_lt_add_left (Nat.succ_pos _) _
  | some d' => exact Nat.add_lt_add_left (Nat.succ_lt_succ (h p k ty dep d d' hk hd hdep hd')) _

/-! ## Runs that settle -/

/-- What a run keeps that resolves outwards and enters ranked registries only. -/
structure Settles (rank : Ty → Ty → Nat) (s : World) : Prop where
  locks : Locks s
  ledger : Ledger s
  placed : Placed s
  ranked : Ranked rank s.providers

namespace Settles

variable {rank : Ty → Ty → Nat} {s u : World}

theorem start (n : Nat) : Settles rank (.start n) :=
  ⟨.start n, .start n, .start n, fun p k ty dep d d' hk => (by cases hk)⟩

theorem step {a : Act} (h : Settles rank s) (houtward : s.outward a = true)
    (hranked : s.ranked rank a = true) (hstep : s.step a = some u) : Settles rank u := by
  obtain ⟨th, hth, hmoves⟩ := World.moves_of_step hstep
  exact ⟨h.locks.step houtward hstep, h.ledger.moves hmoves, h.placed.moves h.locks.injected hth
    hmoves, h.ranked.moves hranked hmoves⟩

theorem of_settling {a : Act} (h : Settles rank s) (hstep : settling.step s a = some u) :
    Settles rank u := by
  obtain ⟨hsettles, hstep⟩ := settling_step_iff.1 hstep
  cases a with
  | ask t p ty => cases hsettles
  | enter t parent descriptors scopeType => cases hsettles
  | _ => exact h.step rfl rfl hstep

theorem exec {as : List Act} (h : Settles rank s)
    (hmeets : system.Meets (fun s a => (s.outward a && s.ranked rank a) = true) s as)
    (hrun : system.exec s as = some u) : Settles rank u := by
  have hall : system.Throughout (Settles rank) s as := by
    refine Lts.throughout_of_meets (I := fun _ => True) (fun _ _ _ _ _ => trivial)
      (fun s a u _ h hcond hstep => ?_) trivial h hmeets
    obtain ⟨houtward, hranked⟩ := Bool.and_eq_true_iff.1 hcond
    exact h.step houtward hranked hstep
  exact Lts.throughout_iff_prefix.1 hall _ _ (List.prefix_refl _) hrun

/-- When no thread can go on, all are idle. -/
theorem idle (h : Settles rank s) (hend : ∀ a, settling.step s a = none) :
    ∀ th ∈ s.threads, th = ⟨[], none⟩ := by
  intro th hmem
  obtain ⟨t, hth⟩ := List.mem_iff_getElem?.1 hmem
  refine Classical.byContradiction fun hbusy => ?_
  obtain ⟨v, a, u, hsettles, -, hstep⟩ := h.locks.goesOn_of_not_idle h.ledger h.placed hth hbusy
  have hgoes := settling_step_iff.2 ⟨hsettles, hstep⟩
  rw [hend a] at hgoes
  cases hgoes

/-- The steps that are left have a bound. -/
theorem bounded (h : Settles rank s) :
    ∃ m, ∀ as u, settling.exec s as = some u → as.length ≤ m := by
  obtain ⟨height, b, hpriced⟩ := h.ranked.priced h.locks.injected.parents
  refine ⟨s.weight height b, fun as u hrun => ?_⟩
  have hkeeps : ∀ s a u, Priced height b s.providers → settling.step s a = some u →
      Priced height b u.providers ∧ u.weight height b < s.weight height b := by
    intro s a u hpriced hstep
    obtain ⟨hsettles, hstep⟩ := settling_step_iff.1 hstep
    obtain ⟨th, hth, hmoves⟩ := World.moves_of_step hstep
    refine ⟨?_, hmoves.weight_lt hpriced hth hsettles⟩
    rcases hmoves.shrinks with hshrinks | ⟨parent, descriptors, scopeType, henter, -⟩
    · exact hpriced.mono hshrinks
    · rw [henter] at hsettles
      cases hsettles
  have hle := Lts.length_add_rank_le (World.weight height b)
    (I := fun s => Priced height b s.providers)
    (fun s a u hp hstep => (hkeeps s a u hp hstep).1)
      (fun s a u hp hstep => (hkeeps s a u hp hstep).2)
    hpriced hrun
  omega

end Settles

/-- From every state of a run whose factories resolve outwards and whose registries have no circles
within a scope: as long as nothing new is asked for, the steps of all threads are bounded, whatever
their order; and when none is possible any more, every thread is idle. -/
theorem every_resolution_ends (rank : Ty → Ty → Nat) (n : Nat) (as : List Act) (s : World)
    (hmeets : system.Meets (fun s a => (s.outward a && s.ranked rank a) = true) (World.start n) as)
    (hrun : system.exec (World.start n) as = some s) :
    ∃ m, ∀ bs u, settling.exec s bs = some u →
      bs.length ≤ m ∧ ((∀ a, settling.step u a = none) → ∀ th ∈ u.threads, th = ⟨[], none⟩) := by
  have h : Settles rank s := (Settles.start n).exec hmeets hrun
  obtain ⟨m, hm⟩ := h.bounded
  refine ⟨m, fun bs u hbs => ⟨hm bs u hbs, ?_⟩⟩
  exact (Lts.exec_invariant (fun _ _ _ h hstep => h.of_settling hstep) h hbs).idle

/-- Two threads in the middle of resolutions that need each other's locks. -/
theorem every_resolution_ends_of_crossing :
    ∃ s, system.exec (World.start 2) (crossing 0 5) = some s ∧
      ∃ m, ∀ bs u, settling.exec s bs = some u →
        bs.length ≤ m ∧ ((∀ a, settling.step u a = none) → ∀ th ∈ u.threads, th = ⟨[], none⟩) :=
  ⟨_, rfl, every_resolution_ends (fun _ _ => 0) 2 (crossing 0 5) _ (by decide) rfl⟩

end LocalPost.Di
