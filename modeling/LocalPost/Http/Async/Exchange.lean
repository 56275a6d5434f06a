import LocalPost.Http.Async.Answering
import LocalPost.Http.HeaderText

/-!
# What the servers are told

`asgi` and `rsgi` are the two transports. Each protocol says which events it takes in which order,
as a transition system of its own (`Asgi.exchange`, `Rsgi.exchange`), and how its server makes a
reply of them (`Asgi.read`, `Rsgi.read`).

For every handler and every order in which its calls, the server and the peer come: what is sent is
a run of the protocol, it belongs to one call, and once that call has returned to a peer that is
still there, the server has the whole reply (`asgi_exchange`, `rsgi_exchange`).
-/

set_option autoImplicit false

namespace LocalPost.Http.Async

open LocalPost.Core LocalPost.Http.Writer
open LocalPost.Http.Wsgi (readChunks flatten_readChunks)

/-- What a server has to send: the status, the headers and the body. -/
structure Reply where
  status : Nat
  headers : List (Bytes × Bytes)
  body : Bytes
  deriving DecidableEq, Repr

/-- The bytes that a call hands over. -/
def Call.handed : Call → Bytes
  | .complete _ body => body.getD []
  | .stream _ chunks _ => chunks.flatten
  | .sendfile _ file offset count => ((file.data.getD []).drop offset).take count

/-- The reply that a call asks for. -/
def Call.reply (k : Call) : Reply := ⟨k.response.statusCode, k.response.headers, k.handed⟩

/-- A call that has started: it is under way, or has ended without being refused. -/
def Ctx.Accepts {ε : Type} (c : Ctx ε) (k : Call) : Prop :=
  (∃ a, c.place = some (k, a)) ∨ ∃ o, o ≠ .refused ∧ (k, o) ∈ c.log

/-! ## ASGI -/

namespace Asgi

/-- `http.response.start` and `http.response.body`. -/
inductive Sent where
  | start (status : Nat) (headers : List (Bytes × Bytes))
  | body (body : Bytes) (moreBody : Bool)
  deriving DecidableEq, Repr

/-- How far a response has come. -/
inductive Phase where
  | idle
  | headed
  | closed
  deriving DecidableEq, Repr

/-- One start, bodies, and nothing behind the last one. -/
def exchange : Lts Phase Sent where
  init := fun p => p = .idle
  step := fun p e =>
    match p, e with
    | .idle, .start _ _ => some .headed
    | .headed, .body _ true => some .headed
    | .headed, .body _ false => some .closed
    | _, _ => none

/-- The bodies up to the last one. -/
def readBody : List Sent → Option Bytes
  | .body b true :: es => (readBody es).map fun rest => b ++ rest
  | [.body b false] => some b
  | _ => none

/-- The reply, when it is complete. -/
def read : List Sent → Option Reply
  | .start status headers :: es => (readBody es).map fun body => ⟨status, headers, body⟩
  | _ => none

end Asgi

/-- The methods of `_ASGIReqCtx`. -/
def asgi : Transport Asgi.Sent where
  complete := fun r body => [.start r.statusCode r.headers, .body (body.getD []) false]
  head := fun r => .start r.statusCode r.headers
  chunk := fun b => .body b true
  final := some (.body [] false)
  fileRange := fun _ _ _ _ => none

/-! ## RSGI -/

namespace Rsgi

/-- The calls on the protocol object, and on the transport of a stream. -/
inductive Sent where
  | responseEmpty (status : Nat) (headers : List (Str × Str))
  | responseBytes (status : Nat) (headers : List (Str × Str)) (body : Bytes)
  | responseStream (status : Nat) (headers : List (Str × Str))
  | sendBytes (body : Bytes)
  | responseFileRange (status : Nat) (headers : List (Str × Str)) (name : Bytes) (start stop : Nat)
  deriving DecidableEq, Repr

/-- How far a response has come. -/
inductive Phase where
  | idle
  | streaming
  | closed
  deriving DecidableEq, Repr

/-- One response, and bytes behind it only for a stream. -/
def exchange : Lts Phase Sent where
  init := fun p => p = .idle
  step := fun p e =>
    match p, e with
    | .idle, .responseEmpty _ _ => some .closed
    | .idle, .responseBytes _ _ _ => some .closed
    | .idle, .responseFileRange _ _ _ _ _ => some .closed
    | .idle, .responseStream _ _ => some .streaming
    | .streaming, .sendBytes _ => some .streaming
    | _, _ => none

/-- The bytes of a stream. -/
def readBody : List Sent → Option Bytes
  | [] => some []
  | .sendBytes b :: es => (readBody es).map fun rest => b ++ rest
  | _ => none

/-- The reply once the application has returned; `disk` is what the server finds under a name. -/
def read (disk : Bytes → Option Bytes) (es : List Sent) : Option Reply :=
  match es with
  | [.responseEmpty status headers] => (wireHeaders headers).map fun hs => ⟨status, hs, []⟩
  | [.responseBytes status headers body] => (wireHeaders headers).map fun hs => ⟨status, hs, body⟩
  | [.responseFileRange status headers name start stop] =>
    (wireHeaders headers).bind fun hs =>
      (disk name).map fun data => ⟨status, hs, (data.drop start).take (stop - start)⟩
  | .responseStream status headers :: es =>
    (wireHeaders headers).bind fun hs => (readBody es).map fun body => ⟨status, hs, body⟩
  | _ => none

end Rsgi

/-- The methods of `_RSGIReqCtx`. A call that is no coroutine is one whose wait is over at once. -/
def rsgi : Transport Rsgi.Sent where
  complete := fun r body =>
    if body.getD [] = [] then [.responseEmpty r.statusCode (strHeaders r.headers)]
    else [.responseBytes r.statusCode (strHeaders r.headers) (body.getD [])]
  head := fun r => .responseStream r.statusCode (strHeaders r.headers)
  chunk := fun b => .sendBytes b
  final := none
  fileRange := fun r file offset count => file.name.map fun name =>
    .responseFileRange r.statusCode (strHeaders r.headers) name offset (offset + count)

/-! ## What the invariant says of the events -/

section

variable {ε : Type} {T : Transport ε} {c : Ctx ε}

/-- Nothing has been sent, or some events of one call from their beginning. -/
inductive Belongs (T : Transport ε) (c : Ctx ε) : Prop where
  | nothing (hsent : c.sent = [])
  | once (k : Call) (all : List ε) (haccepts : c.Accepts k)
      (hstatus : c.responseStatus = some k.response.statusCode)
        (hplan : T.plan k = some (.once all))
      (hsent : c.sent <+: all)
  | streamed (k : Call) (chunks done : List Bytes) (raises : Bool) (closing : List ε)
    (haccepts : c.Accepts k)
      (hstatus : c.responseStatus = some k.response.statusCode)
      (hplan : T.plan k = some (.chunked chunks raises)) (hdone : done <+: chunks)
      (hsent : c.sent = T.streamed k.response done ++ closing)
        (hclosing : closing <+: T.final.toList)

/-- What has been sent belongs to the one call that started. -/
theorem Inv.belongs (h : Inv T c) : Belongs T c := by
  cases h with
  | fresh hstarted hstatus hplace hsent hlog => exact .nothing hsent
  | running k a hstarted hstatus hplace hsent hlog =>
    -- the call that runs is the accepted one, and what was sent is what it has sent so far
    have haccepts : c.Accepts k := .inl ⟨a, hplace⟩
    have hopen : ∀ {chunks done : List Bytes} {raises : Bool},
      T.plan k = some (.chunked chunks raises) →
        done <+: chunks → c.sent = T.streamed k.response done → Belongs T c := by
      intro chunks done raises hplan hdone hes
      refine .streamed k chunks done raises [] haccepts hstatus hplan hdone ?_ List.nil_prefix
      rw [hes, List.append_nil]
    cases a with
    | next chunks raises =>
      obtain ⟨done, hplan, hes⟩ := hsent
      exact hopen hplan (List.prefix_append _ _) hes
    | send e rest =>
      cases rest with
      | events es => exact .once k _ haccepts hstatus hsent (List.prefix_append _ _)
      | start chunks raises => exact .nothing hsent.2.1
      | iterate chunks raises =>
        -- the awaited chunk is not out yet: it counts as the rest
        obtain ⟨done, chunk, hplan, -, hes⟩ := hsent
        exact hopen hplan (List.prefix_append _ _) hes
      | leave raised =>
        obtain ⟨done, chunks, raises, hplan, hdone, -, hes, -⟩ := hsent
        exact hopen hplan hdone hes
  | ended k o hstarted hstatus hplace hsent hrefused hlog =>
    have haccepts : c.Accepts k := by
      obtain ⟨before, behind, heq, -, -⟩ := hlog
      refine .inr ⟨o, hrefused, ?_⟩
      rw [heq]
      exact List.mem_append_right _ List.mem_cons_self
    cases hsent with
    | once all hplan hes hall => exact .once k all haccepts hstatus hplan hes
    | unsent chunks raises hplan hes hraised => exact .nothing hes
    | streamed chunks done raises closing hplan hdone hes hclosing hall =>
      exact .streamed k chunks done raises closing haccepts hstatus hplan hdone hes hclosing

/-- The calls that have started are one call. -/
theorem Inv.accepts_unique (h : Inv T c) {k k' : Call} (hk : c.Accepts k) (hk' : c.Accepts k') :
    k = k' := by
  -- a refused call is in the log only as refused
  have hmem : ∀ {log : List (Call × Outcome)} {j : Call} {o : Outcome}, AllRefused log →
    o ≠ .refused →
      (j, o) ∉ log := fun hall hne hin => hne (hall _ hin)
  have hpick : ∃ k₀, ∀ j, c.Accepts j → j = k₀ := by
    cases h with
    | fresh hstarted hstatus hplace hsent hlog =>
      refine ⟨k, fun j hj => ?_⟩
      rcases hj with ⟨a, ha⟩ | ⟨o, hne, hin⟩
      · rw [hplace] at ha
        cases ha
      · exact absurd hin (hmem hlog hne)
    | running k₀ a hstarted hstatus hplace hsent hlog =>
      refine ⟨k₀, fun j hj => ?_⟩
      rcases hj with ⟨b, hb⟩ | ⟨o, hne, hin⟩
      · rw [hplace] at hb
        cases hb
        rfl
      · exact absurd hin (hmem hlog hne)
    | ended k₀ o hstarted hstatus hplace hsent hrefused hlog =>
      refine ⟨k₀, fun j hj => ?_⟩
      rcases hj with ⟨b, hb⟩ | ⟨o', hne, hin⟩
      · rw [hplace] at hb
        cases hb
      -- everything else in the log of an ended exchange was refused
      · obtain ⟨before, behind, heq, hbefore, hbehind⟩ := hlog
        rw [heq] at hin
        rcases List.mem_append.1 hin with hin | hin
        · exact absurd hin (hmem hbefore hne)
        · rcases List.mem_cons.1 hin with hin | hin
          · exact congrArg Prod.fst hin
          · exact absurd hin (hmem hbehind hne)
  obtain ⟨k₀, hall⟩ := hpick
  rw [hall k hk, hall k' hk']

/-- What a call that has returned to a peer that is there has sent. -/
theorem Inv.returned (h : Inv T c) {k : Call} (hk : (k, .returned) ∈ c.log)
    (hconnected : c.disconnected = false) : T.plan k = some (.once c.sent) ∨
    ∃ chunks, T.plan k = some (.chunked chunks false) ∧
      c.sent = T.streamed k.response chunks ++ T.final.toList := by
  have haccepts : c.Accepts k := .inr ⟨_, by decide, hk⟩
  cases h with
  | fresh hstarted hstatus hplace hsent hlog => cases hlog _ hk
  | running k₀ a hstarted hstatus hplace hsent hlog => cases hlog _ hk
  | ended k₀ o hstarted hstatus hplace hsent hrefused hlog =>
    obtain ⟨before, behind, heq, hbefore, hbehind⟩ := hlog
    -- the call that returned is the accepted one, with its outcome
    have hsame : (k, Outcome.returned) = (k₀, o) := by
      rw [heq] at hk
      rcases List.mem_append.1 hk with hin | hin
      · cases hbefore _ hin
      · rcases List.mem_cons.1 hin with hin | hin
        · exact hin
        · cases hbehind _ hin
    cases hsame
    cases hsent with
    | once all hplan hes hall =>
      rw [hall rfl]
      exact .inl hplan
    | unsent chunks raises hplan hes hraised => cases hraised
    | streamed chunks done raises closing hplan hdone hes hclosing hall =>
      -- to a connected peer a returned stream has sent every chunk and the closing event
      obtain ⟨rfl, rfl, rfl⟩ := hall rfl hconnected
      exact .inr ⟨done, hplan, hes⟩

/-- The chunks of a call are the bytes that it hands over. -/
theorem Transport.flatten_of_plan {k : Call} {chunks : List Bytes} {raises : Bool}
    (h : T.plan k = some (.chunked chunks raises)) : chunks.flatten = k.handed := by
  cases k with
  | complete r body => cases h
  | stream r all raises' =>
    cases h
    rfl
  | sendfile r file offset count =>
    rw [plan] at h
    split at h
    · cases h
    · obtain ⟨data, hdata, heq⟩ := Option.map_eq_some_iff.1 h
      cases heq
      rw [flatten_readChunks, Call.handed, hdata]
      rfl

/-- The status of the context is that of the call that started. -/
theorem Inv.status (h : Inv T c) {k : Call} (hk : c.Accepts k) :
    c.responseStatus = some k.response.statusCode := by
  cases h with
  | fresh hstarted hstatus hplace hsent hlog =>
    rcases hk with ⟨a, ha⟩ | ⟨o, hne, hin⟩
    · rw [hplace] at ha
      cases ha
    · exact absurd (hlog _ hin) hne
  | running k₀ a hstarted hstatus hplace hsent hlog =>
    rcases hk with ⟨b, hb⟩ | ⟨o, hne, hin⟩
    · rw [hplace] at hb
      cases hb
      exact hstatus
    · exact absurd (hlog _ hin) hne
  | ended k₀ o hstarted hstatus hplace hsent hrefused hlog =>
    have hinv : Inv T c := .ended k₀ o hstarted hstatus hplace hsent hrefused hlog
    have haccepts : c.Accepts k₀ := by
      obtain ⟨before, behind, heq, -, -⟩ := hlog
      refine .inr ⟨o, hrefused, ?_⟩
      rw [heq]
      exact List.mem_append_right _ List.mem_cons_self
    rw [hinv.accepts_unique hk haccepts]
    exact hstatus

/-- What a bridge owes its server and its client: the events are a run of the protocol; at most one
call has started, and the status is that of its response; a call that has returned to a peer that is
there has left the whole reply; a reply that the server takes for whole has the head of that call
and its first bytes; and a call under way ends after a bounded number of waits. -/
structure Answers (T : Transport ε) {φ : Type} (exchange : Lts φ ε) (read : List ε → Option Reply)
    (c : Ctx ε) : Prop where
  run : ∃ start phase, exchange.init start ∧ exchange.exec start c.sent = some phase
  one : ∀ k k', c.Accepts k → c.Accepts k' → k = k'
  status : ∀ k, c.Accepts k → c.responseStatus = some k.response.statusCode
  whole : ∀ k, (k, .returned) ∈ c.log → c.disconnected = false → read c.sent = some k.reply
  part : ∀ reply, read c.sent = some reply →
    ∃ k, c.Accepts k ∧ reply.status = k.response.statusCode ∧
    reply.headers = k.response.headers ∧ reply.body <+: k.handed
  ends : ∃ n, ∀ as d, (∀ a ∈ as, ∀ k, a ≠ .call k) → (system T).exec c as = some d →
    (as.filter (· ≠ .disconnect)).length ≤ n ∧
      (d.place = none ∨ ∃ e, (system T).step d .returns = some e)

theorem ends (T : Transport ε) (c : Ctx ε) :
    ∃ n, ∀ as d, (∀ a ∈ as, ∀ k, a ≠ .call k) → (system T).exec c as = some d →
      (as.filter (· ≠ .disconnect)).length ≤ n ∧
      (d.place = none ∨ ∃ e, (system T).step d .returns = some e) := by
  refine ⟨c.left, fun as d hcalls hrun => ⟨?_, idle_or_goesOn d⟩⟩
  have hle := call_ends hcalls hrun
  omega

end

/-! ## The two bridges -/

namespace Asgi

theorem exec_chunks (done : List Bytes) :
    exchange.exec .headed (done.map asgi.chunk) = some .headed := by
  induction done with
  | nil => rfl
  | cons chunk done ih => exact ih

theorem exec_streamed (r : Response) (done : List Bytes) :
    exchange.exec .idle (asgi.streamed r done) = some .headed := exec_chunks done

/-- The body of chunks is what they carry, put together. -/
theorem readBody_chunks (done : List Bytes) (es : List Sent) :
    readBody (done.map asgi.chunk ++ es) = (readBody es).map fun rest => done.flatten ++ rest := by
  induction done with
  | nil => exact Option.map_id'.symm
  | cons chunk done ih =>
    change (readBody (done.map asgi.chunk ++ es)).map (fun rest => chunk ++ rest) = _
    rw [ih, Option.map_map]
    congr 1
    funext rest
    rw [Function.comp_apply, List.flatten_cons, List.append_assoc]

theorem read_streamed (r : Response) (done : List Bytes) (closing : List Sent) :
    read (asgi.streamed r done ++ closing) =
      (readBody closing).map fun rest => ⟨r.statusCode, r.headers, done.flatten ++ rest⟩ := by
  change (readBody (done.map asgi.chunk ++ closing)).map _ = _
  rw [readBody_chunks, Option.map_map]
  rfl

/-- What is behind the chunks: nothing, or the last event. -/
theorem closing_cases {closing : List Sent} (h : closing <+: asgi.final.toList) :
    closing = [] ∨ closing = [.body [] false] := by
  change closing <+: [.body [] false] at h
  cases closing with
  | nil => exact .inl rfl
  | cons e es =>
    obtain ⟨rfl, hes⟩ := List.cons_prefix_cons.1 h
    rw [List.prefix_nil.1 hes]
    exact .inr rfl

/-- `complete` is the one call that goes out at once. -/
theorem once_cases {k : Call} {all : List Sent} (h : asgi.plan k = some (.once all)) :
    all = [.start k.response.statusCode k.response.headers, .body k.handed false] := by
  cases k with
  | complete r body =>
    cases h
    rfl
  | stream r chunks raises => cases h
  | sendfile r file offset count =>
    obtain ⟨data, -, heq⟩ := Option.map_eq_some_iff.1 h
    cases heq

/-- Some of two events. -/
theorem prefix_pair {es : List Sent} {x y : Sent} (h : es <+: [x, y]) :
    es = [] ∨ es = [x] ∨ es = [x, y] := by
  cases es with
  | nil => exact .inl rfl
  | cons e es =>
    obtain ⟨rfl, hes⟩ := List.cons_prefix_cons.1 h
    cases es with
    | nil => exact .inr (.inl rfl)
    | cons e' es =>
      obtain ⟨rfl, hes'⟩ := List.cons_prefix_cons.1 hes
      rw [List.prefix_nil.1 hes']
      exact .inr (.inr rfl)

end Asgi

/-- What the invariant says of the events on the ASGI bridge. -/
theorem Asgi.answers {c : Ctx Asgi.Sent} (hinv : Inv asgi c) :
    Answers asgi Asgi.exchange Asgi.read c := by
  refine ⟨?_, fun k k' hk hk' => hinv.accepts_unique hk hk',
    fun k hk => hinv.status hk, ?_, ?_, ends asgi c⟩
  -- what has been sent is a run of the protocol, from `idle`
  · refine ⟨.idle, ?_⟩
    cases hinv.belongs with
    | nothing hsent => exact ⟨.idle, rfl, by rw [hsent]; rfl⟩
    | once k all haccepts hstatus hplan hsent =>
      -- of the two events none, one or both are out
      rw [Asgi.once_cases hplan] at hsent
      rcases Asgi.prefix_pair hsent with hes | hes | hes
      · exact ⟨.idle, rfl, by rw [hes]; rfl⟩
      · exact ⟨.headed, rfl, by rw [hes]; rfl⟩
      · exact ⟨.closed, rfl, by rw [hes]; rfl⟩
    | streamed k chunks done raises closing haccepts hstatus hplan hdone hsent hclosing =>
      have hstreamed := Asgi.exec_streamed k.response done
      rcases Asgi.closing_cases hclosing with rfl | rfl
      · exact ⟨.headed, rfl, by rw [hsent, List.append_nil, hstreamed]⟩
      · refine ⟨.closed, rfl, ?_⟩
        rw [hsent]
        exact (Lts.exec_append _).2 ⟨.headed, hstreamed, rfl⟩
  -- a call that has returned has the reply that it was asked for
  · intro k hk hconnected
    rcases hinv.returned hk hconnected with hplan | ⟨chunks, hplan, hsent⟩
    · rw [Asgi.once_cases hplan]
      rfl
    · rw [hsent, Asgi.read_streamed]
      change some (Reply.mk _ _ (chunks.flatten ++ [])) = _
      rw [List.append_nil, Transport.flatten_of_plan hplan]
      rfl
  -- whatever the peer reads comes from the accepted call
  · intro reply hreply
    cases hinv.belongs with
    | nothing hsent =>
      rw [hsent] at hreply
      cases hreply
    | once k all haccepts hstatus hplan hsent =>
      rw [Asgi.once_cases hplan] at hsent
      rcases Asgi.prefix_pair hsent with hes | hes | hes
      · rw [hes] at hreply
        cases hreply
      · rw [hes] at hreply
        cases hreply
      -- only both events together are read as a reply
      · rw [hes] at hreply
        cases hreply
        exact ⟨k, haccepts, rfl, rfl, List.prefix_rfl⟩
    | streamed k chunks done raises closing haccepts hstatus hplan hdone hsent hclosing =>
      rw [hsent, Asgi.read_streamed] at hreply
      rcases Asgi.closing_cases hclosing with rfl | rfl
      · cases hreply
      · cases hreply
        refine ⟨k, haccepts, rfl, rfl, ?_⟩
        -- an unfinished stream has handed out a part of its chunks, in order
        change done.flatten ++ [] <+: k.handed
        rw [List.append_nil, ← Transport.flatten_of_plan hplan]
        obtain ⟨rest, rfl⟩ := hdone
        rw [List.flatten_append]
        exact List.prefix_append _ _

/-- The server finds under the name of a file what the handler has open. -/
def Call.OnDisk (disk : Bytes → Option Bytes) : Call → Prop
  | .complete _ _ => True
  | .stream _ _ _ => True
  | .sendfile _ file _ _ => ∀ name, file.name = some name → ∃ data, file.data = some data ∧
    disk name = some data

namespace Rsgi

theorem exec_chunks (done : List Bytes) :
    exchange.exec .streaming (done.map rsgi.chunk) = some .streaming := by
  induction done with
  | nil => rfl
  | cons chunk done ih => exact ih

theorem exec_streamed (r : Response) (done : List Bytes) :
    exchange.exec .idle (rsgi.streamed r done) = some .streaming := exec_chunks done

theorem readBody_chunks (done : List Bytes) :
    readBody (done.map rsgi.chunk) = some done.flatten := by
  induction done with
  | nil => rfl
  | cons chunk done ih =>
    change (readBody (done.map rsgi.chunk)).map (fun rest => chunk ++ rest) = _
    rw [ih]
    rfl

theorem read_streamed (disk : Bytes → Option Bytes) (r : Response) (done : List Bytes) :
    read disk (rsgi.streamed r done) = some ⟨r.statusCode, r.headers, done.flatten⟩ := by
  change (wireHeaders (strHeaders r.headers)).bind
    (fun hs => (readBody (done.map rsgi.chunk)).map _) = _
  rw [wireHeaders_strHeaders, readBody_chunks]
  rfl

/-- What goes out at once is one event, and the whole reply. -/
theorem once_cases {k : Call} {all : List Sent} (h : rsgi.plan k = some (.once all)) :
    ∃ e, all = [e] ∧ exchange.step .idle e = some .closed ∧
      ∀ disk, k.OnDisk disk → read disk [e] = some k.reply := by
  cases k with
  | complete r body =>
    have hall : rsgi.complete r body = all := Plan.once.inj (Option.some.inj h)
    rw [← hall]
    -- no body goes out as `response_empty`
    by_cases hempty : body.getD [] = []
    · refine ⟨.responseEmpty r.statusCode (strHeaders r.headers), if_pos hempty,
        rfl, fun disk _ => ?_⟩
      change (wireHeaders (strHeaders r.headers)).map _ = some (Reply.mk _ _ (body.getD []))
      rw [wireHeaders_strHeaders, hempty]
      rfl
    · refine ⟨.responseBytes r.statusCode (strHeaders r.headers) (body.getD []), if_neg hempty, rfl,
        fun disk _ => ?_⟩
      change (wireHeaders (strHeaders r.headers)).map _ = _
      rw [wireHeaders_strHeaders]
      rfl
  | stream r chunks raises => cases h
  | sendfile r file offset count =>
    -- only a file with a name goes out by its range
    cases hname : file.name with
    | none =>
      have hrange : rsgi.fileRange r file offset count = none := congrArg (Option.map _) hname
      rw [Transport.plan, hrange] at h
      obtain ⟨data, -, heq⟩ := Option.map_eq_some_iff.1 h
      cases heq
    | some name =>
      have hrange : rsgi.fileRange r file offset count =
          some (.responseFileRange r.statusCode (strHeaders r.headers) name
            offset (offset + count)) :=
        congrArg (Option.map _) hname
      rw [Transport.plan, hrange] at h
      cases h
      refine ⟨_, rfl, rfl, fun disk hdisk => ?_⟩
      obtain ⟨data, hdata, hfound⟩ := hdisk name hname
      change (wireHeaders (strHeaders r.headers)).bind (fun hs => (disk name).map _) = _
      rw [wireHeaders_strHeaders, hfound, Call.reply, Call.handed, hdata]
      change some (Reply.mk _ _ ((data.drop offset).take (offset + count - offset))) = _
      rw [Nat.add_sub_cancel_left]
      rfl

end Rsgi

/-- What the invariant says of the calls on the RSGI bridge. -/
theorem Rsgi.answers (disk : Bytes → Option Bytes) {c : Ctx Rsgi.Sent} (hinv : Inv rsgi c)
    (hdisk : ∀ k, c.Accepts k → k.OnDisk disk) : Answers rsgi Rsgi.exchange (Rsgi.read disk) c := by
  -- there is no event behind the chunks
  have hopen : ∀ {closing : List Rsgi.Sent}, closing <+: rsgi.final.toList → closing = [] :=
    fun hclosing => List.prefix_nil.1 hclosing
  have hsingle : ∀ {es : List Rsgi.Sent} {e : Rsgi.Sent}, es <+: [e] → es = [] ∨ es = [e] := by
    intro es e hes
    cases es with
    | nil => exact .inl rfl
    | cons x es =>
      obtain ⟨rfl, hrest⟩ := List.cons_prefix_cons.1 hes
      rw [List.prefix_nil.1 hrest]
      exact .inr rfl
  refine ⟨?_, fun k k' hk hk' => hinv.accepts_unique hk hk',
    fun k hk => hinv.status hk, ?_, ?_, ends rsgi c⟩
  · refine ⟨.idle, ?_⟩
    cases hinv.belongs with
    | nothing hsent => exact ⟨.idle, rfl, by rw [hsent]; rfl⟩
    | once k all haccepts hstatus hplan hsent =>
      obtain ⟨e, rfl, hstep, -⟩ := Rsgi.once_cases hplan
      rcases hsingle hsent with hes | hes
      · exact ⟨.idle, rfl, by rw [hes]; rfl⟩
      · refine ⟨.closed, rfl, ?_⟩
        rw [hes]
        exact (Lts.exec_cons _).2 ⟨.closed, hstep, rfl⟩
    | streamed k chunks done raises closing haccepts hstatus hplan hdone hsent hclosing =>
      rw [hopen hclosing, List.append_nil] at hsent
      exact ⟨.streaming, rfl, by rw [hsent, Rsgi.exec_streamed]⟩
  · intro k hk hconnected
    have haccepts : c.Accepts k := .inr ⟨_, by decide, hk⟩
    rcases hinv.returned hk hconnected with hplan | ⟨chunks, hplan, hsent⟩
    · obtain ⟨e, hall, -, hread⟩ := Rsgi.once_cases hplan
      rw [hall]
      exact hread disk (hdisk k haccepts)
    · have hend : rsgi.final.toList = [] := rfl
      rw [hsent, hend, List.append_nil, Rsgi.read_streamed, Transport.flatten_of_plan hplan]
      rfl
  · intro reply hreply
    cases hinv.belongs with
    | nothing hsent =>
      rw [hsent] at hreply
      cases hreply
    | once k all haccepts hstatus hplan hsent =>
      obtain ⟨e, rfl, -, hread⟩ := Rsgi.once_cases hplan
      rcases hsingle hsent with hes | hes
      · rw [hes] at hreply
        cases hreply
      · rw [hes, hread disk (hdisk k haccepts)] at hreply
        cases hreply
        exact ⟨k, haccepts, rfl, rfl, List.prefix_rfl⟩
    | streamed k chunks done raises closing haccepts hstatus hplan hdone hsent hclosing =>
      rw [hopen hclosing, List.append_nil] at hsent
      rw [hsent, Rsgi.read_streamed] at hreply
      cases hreply
      refine ⟨k, haccepts, rfl, rfl, ?_⟩
      change done.flatten <+: k.handed
      rw [← Transport.flatten_of_plan hplan]
      obtain ⟨rest, rfl⟩ := hdone
      rw [List.flatten_append]
      exact List.prefix_append _ _

/-- For every handler and request on the ASGI bridge, and every order in which the calls, the server
and the peer come. -/
theorem asgi_exchange {c : Ctx Asgi.Sent} (h : (system asgi).Reachable c) :
    Answers asgi Asgi.exchange Asgi.read c := Asgi.answers (inv_reachable h)

/-- A stream of two chunks. -/
def twoChunks : Call := .stream ⟨200, [], []⟩ [[104], [105]] false

/-- The context behind the two chunks, of which the second was under way when the peer went away. -/
def leftAlone : Ctx Asgi.Sent :=
  ⟨true, true, some 200, true, [.start 200 [], .body [104] true, .body [105] true], none,
    [(twoChunks, .returned)]⟩

theorem asgi_exchange_leftAlone :
    (system asgi).Reachable leftAlone ∧ Answers asgi Asgi.exchange Asgi.read leftAlone := by
  have hreachable : (system asgi).Reachable leftAlone := by
    refine ⟨dispatch asgi 0 (.ofTarget [] [] [] []),
      [.call twoChunks, .returns, .returns, .returns, .returns, .disconnect, .returns, .returns],
        ⟨0, _, rfl⟩, ?_⟩
    decide
  exact ⟨hreachable, asgi_exchange hreachable⟩

/-- The same on the RSGI bridge, where a file that has a name is opened by the server. -/
theorem rsgi_exchange (disk : Bytes → Option Bytes) {c : Ctx Rsgi.Sent}
    (h : (system rsgi).Reachable c)
    (hdisk : ∀ k, c.Accepts k → k.OnDisk disk) : Answers rsgi Rsgi.exchange (Rsgi.read disk) c :=
  Rsgi.answers disk (inv_reachable h) hdisk

/-- A file of three bytes under the name `f`, of which the last two are asked for. -/
def partOfFile : Call := .sendfile ⟨200, [], []⟩ ⟨some [102], some [1, 2, 3]⟩ 1 2

/-- The context behind it. -/
def partSent : Ctx Rsgi.Sent :=
  ⟨true, true, some 200, false, [.responseFileRange 200 [] [102] 1 3], none,
    [(partOfFile, .returned)]⟩

theorem rsgi_exchange_partSent :
    (system rsgi).Reachable partSent ∧
      Answers rsgi Rsgi.exchange (Rsgi.read fun _ => some [1, 2, 3]) partSent := by
  have hreachable : (system rsgi).Reachable partSent :=
    ⟨dispatch rsgi 0 (.ofTarget [] [] [] []), [.call partOfFile, .returns], ⟨0, _, rfl⟩, rfl⟩
  refine ⟨hreachable, rsgi_exchange _ hreachable fun k hk => ?_⟩
  have hpart : k = partOfFile := by
    rcases hk with ⟨a, ha⟩ | ⟨o, -, hin⟩
    · cases ha
    · cases List.mem_singleton.1 hin
      rfl
  rw [hpart]
  intro name hname
  cases hname
  exact ⟨[1, 2, 3], rfl, rfl⟩

end LocalPost.Http.Async
