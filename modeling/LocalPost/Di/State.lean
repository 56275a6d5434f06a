import LocalPost.Core.Dict
import LocalPost.Core.Lts
import LocalPost.Core.ListEntries

/-!
# The service provider

Threads that resolve services, open scopes and leave them. `resolve` is re-entrant: a factory
resolves its dependencies while the call that runs it holds the lock of its provider. So a thread is
a stack of calls, of which the topmost goes on, and what a call returns or raises goes to the one
below it. Below the calls, and between them, stands code of the application: the body of a scope, a
factory, the cleanup of a generator. It may resolve what it likes. `create` is such code: it
resolves the dependencies one after the other, and keeps nothing of what it makes.

Providers and instances are numbered in the order in which they were made. An instance is what one
run of a factory made, and its context manager with it.
-/

set_option autoImplicit false

namespace LocalPost.Di

open LocalPost.Core

/-- A type, as the key of a service. -/
abbrev Ty := Nat

/-- `ServiceProvider`. -/
def serviceProvider : Ty := 0

/-- `AppContext`. -/
def appContext : Ty := 1

/-- What a descriptor makes its instances with: a plain function, a generator function and a type
take their dependencies as parameters, `register_instance` has none. A type is called before its
context manager is entered, the functions when it is. -/
inductive Factory where
  | plain (deps : List Ty)
  | generator (deps : List Ty)
  | autoWired (deps : List Ty)
  | value
  deriving DecidableEq, Repr

namespace Factory

/-- `_collect_deps`, without the names. -/
def deps : Factory → List Ty
  | .plain deps => deps
  | .generator deps => deps
  | .autoWired deps => deps
  | .value => []

/-- Code of the application runs when the context manager is left. -/
def cleansUp : Factory → Bool
  | .generator _ => true
  | _ => false

end Factory

/-- `ServiceDescriptor`. -/
structure ServiceDescriptor where
  service_type : Ty
  scope_type : Ty
  factory : Factory
  create_on_enter : Bool
  deriving DecidableEq, Repr

/-- `ServiceRegistry`. -/
abbrev Registry := Dict (Ty × Ty) ServiceDescriptor

/-- `register` and `register_instance`. -/
def Registry.register (registry : Registry) (sd : ServiceDescriptor) : Registry :=
  Dict.set (sd.service_type, sd.scope_type) sd registry

/-- What a resolution returns. -/
inductive Resolved where
  | provider (p : Nat)
  | scope (p : Nat)
  | instance (i : Nat)
  deriving DecidableEq, Repr

/-- `DefaultServiceProvider` with its scope: the exit callbacks of the scope are those of the
instances that it has entered, the last one on top. `left` says that the scope was left. -/
structure Provider where
  parent : Option Nat
  registry : Registry
  scope_type : Ty
  services : Dict Ty Nat
  exits : List Nat
  left : Bool
  deriving DecidableEq, Repr

namespace Provider

/-- `self.registry.get(service_type, self.scope_type)`. -/
def descriptor (k : Provider) (ty : Ty) : Option ServiceDescriptor :=
  Dict.get? (ty, k.scope_type) k.registry

/-- The services that `scope` resolves. -/
def eager (k : Provider) : List Ty :=
  (k.registry.filter fun e => decide (e.2.scope_type = k.scope_type) && e.2.create_on_enter).map
    fun e => e.2.service_type

end Provider

/-- An instance: its service and the provider that made it, and what was injected into it. The code
keeps none of the rest: how many instances had been closed when it was made, and whether its scope
had been left.
-/
structure Instance where
  provider : Nat
  ty : Ty
  factory : Factory
  injected : List Resolved
  closedBefore : Nat
  late : Bool
  deriving DecidableEq, Repr

/-- A call of `resolve`: the provider that was asked, the one that the search has come to, the
service. -/
structure Call where
  asked : Nat
  provider : Nat
  ty : Ty
  deriving DecidableEq, Repr

/-- A level of a thread's stack. Of a scope: its body, `scope` on the way through the services it
resolves, `ExitStack` on the way through its callbacks, a cleanup. Of a call: before the lookup
without the lock, before the lock, before the second lookup, with `found` from it on the way through
the dependencies, in the factory. -/
inductive Frame where
  | block (p : Nat)
  | entering (p : Nat) (eager : List Ty)
  | leaving (p : Nat)
  | closing (i : Nat)
  | looking (c : Call)
  | locking (c : Call)
  | rechecking (c : Call)
  | wiring (c : Call) (found : Option Nat) (deps : List Ty) (injected : List Resolved)
  | running (c : Call) (found : Option Nat) (injected : List Resolved)
  deriving DecidableEq, Repr

namespace Frame

/-- The provider whose lock the call holds. -/
def holds : Frame → Option Nat
  | .rechecking c => some c.provider
  | .wiring c _ _ _ => some c.provider
  | .running c _ _ => some c.provider
  | _ => none

/-- The creation that the level is part of: the call, and the value that its second lookup saw. -/
def creates : Frame → Option (Call × Option Nat)
  | .wiring c found _ _ => some (c, found)
  | .running c found _ => some (c, found)
  | _ => none

end Frame

/-- The services that the levels create, each with its provider. -/
def creations (stack : List Frame) : List (Nat × Ty) :=
  (stack.filterMap Frame.creates).map fun e => (e.1.provider, e.1.ty)

/-- What goes down to the level below. -/
inductive Reply where
  | value (r : Resolved)
  | raised
  deriving DecidableEq, Repr

/-- A thread: its levels, the topmost first, and what the last one has left to it. -/
structure Thread where
  stack : List Frame
  reply : Option Reply
  deriving DecidableEq, Repr

namespace Thread

/-- Code of the application runs. -/
def isFree (th : Thread) : Bool :=
  th.reply.isNone &&
    match th.stack with
    | [] => true
    | .block _ :: _ => true
    | .closing _ :: _ => true
    | .running _ _ _ :: _ => true
    | _ => false

/-- The thread holds the lock of provider `p`. -/
def holds (th : Thread) (p : Nat) : Bool := th.stack.any fun f => decide (f.holds = some p)

end Thread

/-- A resolution that has returned. -/
structure Returned where
  asked : Nat
  ty : Ty
  result : Resolved
  deriving DecidableEq, Repr

/-- All providers, the instances they made, the order in which those were closed, what was returned,
and the threads. -/
structure World where
  providers : List Provider
  instances : List Instance
  closed : List Nat
  returned : List Returned
  threads : List Thread
  deriving DecidableEq, Repr

/-- One step of thread `t`. Code of the application resolves a service, opens a scope (with the
provider around it, and the descriptors of its registry in the order of their registration), ends
the body of a scope, ends a factory with a value or an exception, or ends a cleanup. The rest is the
code of `resolve`, `scope` and `ExitStack`; a lookup says whether a value that it finds is true. -/
inductive Act where
  | ask (t p : Nat) (ty : Ty)
  | enter (t : Nat) (parent : Option Nat) (descriptors : List ServiceDescriptor) (scopeType : Ty)
  | leave (t : Nat)
  | produce (t : Nat)
  | fail (t : Nat)
  | cleaned (t : Nat)
  | lookup (t : Nat) (truthy : Bool)
  | lock (t : Nat)
  | recheck (t : Nat) (truthy : Bool)
  | wire (t : Nat)
  | deliver (t : Nat)
  | eager (t : Nat)
  | pop (t : Nat)
  deriving DecidableEq, Repr

/-- The thread of a step. -/
def Act.thread : Act → Nat
  | .ask t _ _ => t
  | .enter t _ _ _ => t
  | .leave t => t
  | .produce t => t
  | .fail t => t
  | .cleaned t => t
  | .lookup t _ => t
  | .lock t => t
  | .recheck t _ => t
  | .wire t => t
  | .deliver t => t
  | .eager t => t
  | .pop t => t

namespace World

/-- Thread `t` has come to this stack. -/
def goes (s : World) (t : Nat) (stack : List Frame) : World :=
  { s with threads := s.threads.set t ⟨stack, none⟩ }

/-- The topmost level of thread `t` has ended with an exception. -/
def raise (s : World) (t : Nat) (stack : List Frame) : World :=
  { s with threads := s.threads.set t ⟨stack, some .raised⟩ }

/-- The call on top of thread `t` returns `r`. -/
def reply (s : World) (t : Nat) (c : Call) (r : Resolved) (stack : List Frame) : World :=
  { s with
    threads := s.threads.set t ⟨stack, some (.value r)⟩
    returned := s.returned ++ [⟨c.asked, c.ty, r⟩] }

/-- `if resolved_service := self.services.get(service_type)`. -/
def cached (k : Provider) (ty : Ty) (truthy : Bool) : Option Nat :=
  (Dict.get? ty k.services).filter fun _ => truthy

/-- `resolve` up to the lock. -/
def lookup (s : World) (t : Nat) (truthy : Bool) (c : Call) (stack : List Frame) : Option World :=
  (s.providers[c.provider]?).map fun k =>
    if c.ty = serviceProvider then s.reply t c (.provider c.provider) stack
    else if c.ty = k.scope_type then s.reply t c (.scope c.provider) stack
    else
      match cached k c.ty truthy with
      | some i => s.reply t c (.instance i) stack
      | none =>
        match k.descriptor c.ty with
        | some _ => s.goes t (.locking c :: stack)
        | none =>
          match k.parent with
          | some q => s.goes t (.looking { c with provider := q } :: stack)
          | none => s.raise t stack

/-- `with self._lock`: another call of the same thread may hold it. -/
def lock (s : World) (t : Nat) (c : Call) (stack : List Frame) : Option World :=
  if (List.range s.threads.length).all fun u =>
      decide (u = t) || (s.threads[u]?).all fun th => !th.holds c.provider then
    some (s.goes t (.rechecking c :: stack))
  else none

/-- The second lookup. -/
def recheck (s : World) (t : Nat) (truthy : Bool) (c : Call) (stack : List Frame) : Option World :=
  (s.providers[c.provider]?).bind fun k =>
    match cached k c.ty truthy with
    | some i => some (s.reply t c (.instance i) stack)
    | none => (k.descriptor c.ty).map fun d =>
      s.goes t (.wiring c (Dict.get? c.ty k.services) d.factory.deps [] :: stack)

/-- The instance that is entered and stored. -/
def store (s : World) (c : Call) (k : Provider) (d : ServiceDescriptor) (injected : List Resolved) :
    World :=
  let i := s.instances.length
  { s with
    providers := s.providers.set c.provider
      { k with services := Dict.set c.ty i k.services, exits := k.exits ++ [i] }
    instances := s.instances ++ [⟨c.provider, c.ty, d.factory, injected, s.closed.length, k.left⟩] }

/-- The factory returns or yields its value: its context manager is entered and the value is
stored. -/
def produce (s : World) (t : Nat) (c : Call) (injected : List Resolved) (stack : List Frame) :
    Option World :=
  (s.providers[c.provider]?).bind fun k => (k.descriptor c.ty).map fun d =>
    (s.store c k d injected).reply t c (.instance s.instances.length) stack

/-- The dependencies are there: the function or the type is called. A value is there already. -/
def call (s : World) (t : Nat) (c : Call) (found : Option Nat) (injected : List Resolved)
    (stack : List Frame) :
    Option World :=
  (s.providers[c.provider]?).bind fun k => (k.descriptor c.ty).bind fun d =>
    match d.factory with
    | .value => s.produce t c injected stack
    | _ => some (s.goes t (.running c found injected :: stack))

/-- A new provider. -/
def provide (parent : Option Nat) (descriptors : List ServiceDescriptor)
    (scopeType : Ty) : Provider :=
  ⟨parent, descriptors.foldl Registry.register ([] : Registry), scopeType, [], [], false⟩

/-- A new provider, with `scope` before it. -/
def enter (s : World) (t : Nat) (k : Provider) (stack : List Frame) : World :=
  ({ s with providers := s.providers ++ [k] }).goes t
    (.entering s.providers.length k.eager :: stack)

/-- `ExitStack` has taken the callback of instance `i`. -/
def close (s : World) (p : Nat) (k : Provider) (i : Nat) : World :=
  { s with
    providers := s.providers.set p { k with exits := k.exits.dropLast }
    closed := s.closed ++ [i] }

/-- `ExitStack.__exit__` takes the next callback, or is over. -/
def pop (s : World) (t p : Nat) (stack : List Frame) : Option World :=
  (s.providers[p]?).bind fun k =>
    match k.exits.getLast? with
    | some i => (s.instances[i]?).map fun a =>
      (s.close p k i).goes t
        (if a.factory.cleansUp then .closing i :: .leaving p :: stack else .leaving p :: stack)
    | none =>
      some (({ s with providers := s.providers.set p { k with left := true } }).goes t stack)

/-- What was returned or raised reaches the level below. -/
def deliver (s : World) (t : Nat) (reply : Reply) (stack : List Frame) : Option World :=
  match reply, stack with
  | .value r, .wiring c found deps injected :: stack =>
    some (s.goes t (.wiring c found deps (injected ++ [r]) :: stack))
  | .raised, .wiring _ _ _ _ :: stack => some (s.raise t stack)
  | .value _, .entering p eager :: stack => some (s.goes t (.entering p eager :: stack))
  | .raised, .entering p _ :: stack => some (s.goes t (.leaving p :: stack))
  | _, [] => some (s.goes t [])
  | _, .block p :: stack => some (s.goes t (.block p :: stack))
  | _, .closing i :: stack => some (s.goes t (.closing i :: stack))
  | _, .running c found injected :: stack => some (s.goes t (.running c found injected :: stack))
  | _, _ => none

/-- A step of thread `t` from the stack it has. -/
def stepOn (s : World) (t : Nat) (th : Thread) : Act → Option World
  | .ask _ p ty =>
    if th.isFree && decide (p < s.providers.length) then
      some (s.goes t (.looking ⟨p, p, ty⟩ :: th.stack))
    else none
  | .enter _ parent descriptors scopeType =>
    if th.isFree && parent.all (fun q => decide (q < s.providers.length)) then
      some (s.enter t (provide parent descriptors scopeType) th.stack)
    else none
  | .deliver _ => th.reply.bind fun reply => s.deliver t reply th.stack
  | a =>
    if th.reply.isSome then none
    else
      match a, th.stack with
      | .leave _, .block p :: stack => some (s.goes t (.leaving p :: stack))
      | .produce _, .running c _ injected :: stack => s.produce t c injected stack
      | .fail _, .running _ _ _ :: stack => some (s.raise t stack)
      | .cleaned _, .closing _ :: stack => some (s.goes t stack)
      | .lookup _ truthy, .looking c :: stack => s.lookup t truthy c stack
      | .lock _, .locking c :: stack => s.lock t c stack
      | .recheck _ truthy, .rechecking c :: stack => s.recheck t truthy c stack
      | .wire _, .wiring c found (dep :: deps) injected :: stack =>
        some (s.goes t
          (.looking ⟨c.provider, c.provider, dep⟩ :: .wiring c found deps injected :: stack))
      | .wire _, .wiring c found [] injected :: stack => s.call t c found injected stack
      | .eager _, .entering p (ty :: eager) :: stack =>
        some (s.goes t (.looking ⟨p, p, ty⟩ :: .entering p eager :: stack))
      | .eager _, .entering p [] :: stack => some (s.goes t (.block p :: stack))
      | .pop _, .leaving p :: stack => s.pop t p stack
      | _, _ => none

/-- One step. -/
def step (s : World) (a : Act) : Option World :=
  (s.threads[a.thread]?).bind fun th => s.stepOn a.thread th a

/-- No provider, and `n` threads with nothing to do. -/
def start (n : Nat) : World := ⟨[], [], [], [], List.replicate n ⟨[], none⟩⟩

end World

/-- The providers of a program with any number of threads. -/
def system : Lts World Act where
  init := fun s => ∃ n, s = .start n
  step := World.step

end LocalPost.Di
