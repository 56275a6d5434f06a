import LocalPost.Http.HeaderText
import LocalPost.Http.Wsgi.Agreement

/-!
# Running a WSGI application

`wrap_wsgi` runs an application behind the native server. An application is what it does next: it
calls `start_response`, which returns or raises, it yields a chunk, it stops, or it raises (`App`,
`Body`).

What the bridge is for is said by the gateway of the WSGI specification (`gateway`), which sends the
head with the first chunk that is not empty, or at the end. `runWsgi_eq_gateway`: for every
application that keeps to the rules for `start_response`, the bridge sends what the gateway sends,
and closes the iterable when the gateway closes it.
-/

set_option autoImplicit false

namespace LocalPost.Http.Wsgi

open LocalPost.Core LocalPost.Http.Writer

/-- The rest of an iteration: the calls of `start_response` with the status, the headers and whether
there is an `exc_info`, and what comes when the call returns or raises. -/
inductive Body where
  | startResponse (status : Str) (headers : List (Str × Str)) (excInfo : Bool)
    (returned raised : Body)
  | yields (chunk : Bytes) (rest : Body)
  | stops
  | raises
  deriving DecidableEq, Repr

/-- What an application returns: its body, and whether it has a method `close`. -/
structure Iterable where
  body : Body
  close : Bool
  deriving DecidableEq, Repr

/-- The call of an application. -/
inductive App where
  | startResponse (status : Str) (headers : List (Str × Str)) (excInfo : Bool)
    (returned raised : App)
  | returns (iterable : Iterable)
  | raises
  deriving DecidableEq, Repr

/-! ## The bridge -/

/-- `response_state`. -/
structure ResponseState where
  response : Option Response
  started : Bool
  deriving DecidableEq, Repr

section

-- what `int` makes of a text, where that is a number from zero on
variable (int : Str → Option Nat)

/-- The response of a status and headers: the number, and the text behind the first blank. -/
def responseOf (status : Str) (headers : List (Str × Str)) : Option Response :=
  (wireHead int status headers).map fun head => ⟨head.1, head.2.1, head.2.2⟩

/-- `start_response`; `none` when it raises. -/
def ResponseState.startResponse (s : ResponseState) (status : Str) (headers : List (Str × Str))
    (excInfo : Bool) : Option ResponseState :=
  if excInfo ∧ s.started then none
  else (responseOf int status headers).map fun r => { s with response := some r }

/-- `app(environ, start_response)`; no iterable when it raises. -/
def runApp (s : ResponseState) : App → ResponseState × Option Iterable
  | .startResponse status headers excInfo returned raised =>
    match s.startResponse int status headers excInfo with
    | some s => runApp s returned
    | none => runApp s raised
  | .returns iterable => (s, some iterable)
  | .raises => (s, none)

/-- What the loop that pulls the first chunk ends with. -/
inductive First where
  | chunk (b : Bytes) (rest : Body)
  | exhausted
  | raised
  deriving DecidableEq, Repr

/-- The loop that pulls the first chunk that is not empty. -/
def pullFirst (s : ResponseState) : Body → ResponseState × First
  | .startResponse status headers excInfo returned raised =>
    match s.startResponse int status headers excInfo with
    | some s => pullFirst s returned
    | none => pullFirst s raised
  | .yields chunk rest => if chunk ≠ [] then (s, .chunk chunk rest) else pullFirst s rest
  | .stops => (s, .exhausted)
  | .raises => (s, .raised)

/-- The loop of `chunks()`: the chunks that are not empty, and whether the iteration raises. -/
def chunksFrom (s : ResponseState) : Body → List Bytes × Bool
  | .startResponse status headers excInfo returned raised =>
    match s.startResponse int status headers excInfo with
    | some s => chunksFrom s returned
    | none => chunksFrom s raised
  | .yields chunk rest =>
    if chunk ≠ [] then (chunk :: (chunksFrom s rest).1, (chunksFrom s rest).2)
      else chunksFrom s rest
  | .stops => ([], false)
  | .raises => ([], true)

/-- What a run hands to `ctx.stream`, if it gets that far, and how often it calls `close`. -/
structure Run where
  streamed : Option (Response × List Bytes × Bool)
  closes : Nat
  deriving DecidableEq, Repr

/-- The calls of `close`. -/
def Iterable.closes (it : Iterable) : Nat := if it.close then 1 else 0

/-- `run_wsgi`, up to `ctx.stream`. Without a response it raises. -/
def runWsgi (app : App) : Run :=
  match runApp int ⟨none, false⟩ app with
  | (_, none) => ⟨none, 0⟩
  | (s, some it) =>
    match pullFirst int s it.body with
    | (_, .raised) => ⟨none, it.closes⟩
    | (s, .exhausted) => ⟨s.response.map fun r => (r, [], false), it.closes⟩
    | (s, .chunk b rest) =>
      let more := chunksFrom int { s with started := true } rest
      ⟨s.response.map fun r => (r, b :: more.1, more.2), it.closes⟩

end

/-! ## The gateway of the specification -/

/-- `headers_set` and `headers_sent`, with the chunks that have been written. -/
structure Gateway where
  headersSet : Option (Str × List (Str × Str))
  headersSent : Option (Str × List (Str × Str))
  written : List Bytes
  deriving DecidableEq, Repr

/-- Its `start_response`: headers that are set are not set again, but for an error, and not once
they are sent. -/
def Gateway.startResponse (g : Gateway) (status : Str) (headers : List (Str × Str))
    (excInfo : Bool) : Option Gateway :=
  if excInfo then
    if g.headersSent.isSome then none else some { g with headersSet := some (status, headers) }
  else if g.headersSet.isSome then none
  else some { g with headersSet := some (status, headers) }

/-- Its `write`: the head goes out with the first data. -/
def Gateway.write (g : Gateway) (data : Bytes) : Option Gateway :=
  if g.headersSet = none then none
  else if g.headersSent = none then
    some { g with headersSent := g.headersSet, written := g.written ++ [data] }
  else some { g with written := g.written ++ [data] }

/-- Its loop over the iterable, and whether that raises. -/
def Gateway.iterate (g : Gateway) : Body → Gateway × Bool
  | .startResponse status headers excInfo returned raised =>
    match g.startResponse status headers excInfo with
    | some g => g.iterate returned
    | none => g.iterate raised
  | .yields data rest =>
    if data ≠ [] then
      match g.write data with
      | some g => g.iterate rest
      | none => (g, true)
    else g.iterate rest
  | .stops => if g.headersSent = none then
    ((g.write []).getD g, (g.write []).isNone) else (g, false)
  | .raises => (g, true)

/-- Its call of the application. -/
def Gateway.call (g : Gateway) : App → Gateway × Option Iterable
  | .startResponse status headers excInfo returned raised =>
    match g.startResponse status headers excInfo with
    | some g => g.call returned
    | none => g.call raised
  | .returns iterable => (g, some iterable)
  | .raises => (g, none)

/-- What the gateway does for an application: the head that it sends, what it writes, whether it
raises, and how often it calls `close`. -/
structure Sent where
  head : Option (Str × List (Str × Str))
  written : List Bytes
  raises : Bool
  closes : Nat
  deriving DecidableEq, Repr

def gateway (app : App) : Sent :=
  match Gateway.call ⟨none, none, []⟩ app with
  | (_, none) => ⟨none, [], true, 0⟩
  | (g, some it) =>
    let result := g.iterate it.body
    ⟨result.1.headersSent, result.1.written, result.2, it.closes⟩

/-! ## The bridge and the gateway -/

section

variable {int : Str → Option Nat}

/-- The rules for `start_response`: a status with a number and texts that can be written, and no
second call without an `exc_info`; `set` says that there has been one. -/
def Body.Conforms (int : Str → Option Nat) (set : Bool) : Body → Prop
  | .startResponse status headers excInfo returned raised =>
    (responseOf int status headers).isSome ∧ (set = true → excInfo = true) ∧ returned.Conforms
      int true ∧ raised.Conforms int set
  | .yields _ rest => rest.Conforms int set
  | .stops => True
  | .raises => True

def App.Conforms (int : Str → Option Nat) (set : Bool) : App → Prop
  | .startResponse status headers excInfo returned raised =>
    (responseOf int status headers).isSome ∧ (set = true → excInfo = true) ∧ returned.Conforms
      int true ∧ raised.Conforms int set
  | .returns iterable => iterable.body.Conforms int set
  | .raises => True

/-- The bridge and the gateway before anything has been sent. -/
structure Alike (int : Str → Option Nat) (set : Bool) (s : ResponseState) (g : Gateway) : Prop where
  started : s.started = false
  unsent : g.headersSent = none
  unwritten : g.written = []
  set : g.headersSet.isSome = set
  response : ∀ h, g.headersSet = some h → (responseOf int h.1 h.2).isSome
  same : s.response = g.headersSet.bind fun h => responseOf int h.1 h.2

/-- Both take a call of `start_response`. -/
theorem Alike.startResponse {set excInfo : Bool} {s : ResponseState} {g : Gateway} {status : Str}
    {headers : List (Str × Str)} (h : Alike int set s g)
    (hwire : (responseOf int status headers).isSome) (hexc : set = true → excInfo = true) :
    ∃ s' g', s.startResponse int status headers excInfo = some s' ∧
      g.startResponse status headers excInfo = some g' ∧ Alike int true s' g' := by
  obtain ⟨r, hr⟩ := Option.isSome_iff_exists.1 hwire
  have hbridge : s.startResponse int status headers excInfo =
      some { s with response := some r } := by
    -- the bridge refuses only behind the start of the response
    rw [ResponseState.startResponse, if_neg fun hboth => ?_, hr]
    · rfl
    · rw [h.started] at hboth
      cases hboth.2
  have hgateway : g.startResponse status headers excInfo =
      some { g with headersSet := some (status, headers) } := by
    -- the gateway refuses a second call without `exc_info`, and takes one with it
    rw [Gateway.startResponse]
    split
    · rw [h.unsent]
      rfl
    · rename_i hnot
      have hfresh : set = false := by
        cases set with
        | false => rfl
        | true => exact absurd (hexc rfl) hnot
      rw [h.set, hfresh]
      rfl
  refine ⟨_, _, hbridge, hgateway, h.started, h.unsent, h.unwritten, rfl, ?_, hr.symm⟩
  intro head hhead
  cases hhead
  exact hwire

/-- Where the loop for the first chunk ends, the gateway has come too. -/
inductive Pulls (int : Str → Option Nat) (g : Gateway) (body : Body) :
    ResponseState → First → Prop where
  | raised (s : ResponseState) (g' : Gateway) (hiter : g.iterate body = (g', true))
      (hunsent : g'.headersSent = none) : Pulls int g body s .raised
  | exhausted (set : Bool) (s : ResponseState) (g' : Gateway) (halike : Alike int set s g')
      (hiter : g.iterate body = g'.iterate .stops) : Pulls int g body s .exhausted
  | chunk (set : Bool) (s : ResponseState) (g' : Gateway) (b : Bytes) (rest : Body)
    (halike : Alike int set s g')
      (hne : b ≠ []) (hrest : rest.Conforms int set)
        (hiter : g.iterate body = g'.iterate (.yields b rest)) :
      Pulls int g body s (.chunk b rest)

theorem Pulls.of_iterate {g g' : Gateway} {body body' : Body} {s : ResponseState} {first : First}
    (h : Pulls int g' body' s first) (hiter : g.iterate body = g'.iterate body') :
    Pulls int g body s first := by
  cases h with
  | raised _ g'' hiter' hunsent => exact .raised s g'' (hiter.trans hiter') hunsent
  | exhausted set _ g'' halike hiter' => exact .exhausted set s g'' halike (hiter.trans hiter')
  | chunk set _ g'' b rest halike hne hrest hiter' =>
    exact .chunk set s g'' b rest halike hne hrest (hiter.trans hiter')

/-- The application and the gateway agree up to the first chunk. -/
theorem Alike.pullFirst {set : Bool} {s : ResponseState} {g : Gateway} {body : Body}
    (h : Alike int set s g)
    (hconf : body.Conforms int set) : Pulls int g body (pullFirst int s body).1
    (pullFirst int s body).2 := by
  induction body generalizing set s g with
  | startResponse status headers excInfo returned raised ihreturned ihraised =>
    obtain ⟨hwire, hexc, hreturned, hraised⟩ := hconf
    obtain ⟨s', g', hbridge, hgateway, halike⟩ := h.startResponse hwire hexc
    rw [Wsgi.pullFirst, hbridge]
    apply (ihreturned halike hreturned).of_iterate
    rw [Gateway.iterate, hgateway]
  | yields chunk rest ih =>
    rw [Wsgi.pullFirst]
    by_cases hne : chunk ≠ []
    · rw [if_pos hne]
      exact .chunk set s g chunk rest h hne hconf rfl
    · rw [if_neg hne]
      apply (ih h hconf).of_iterate
      rw [Gateway.iterate, if_neg hne]
  | stops => exact .exhausted set s g h rfl
  | raises => exact .raised s g rfl h.unsent

theorem Gateway.write_of_unset {g : Gateway} (data : Bytes) (hset : g.headersSet = none) :
    g.write data = none := by
  rw [write]
  exact if_pos hset

theorem Gateway.write_of_unsent {g : Gateway} (data : Bytes) {head : Str × List (Str × Str)}
    (hset : g.headersSet = some head) (hsent : g.headersSent = none) :
    g.write data = some { g with headersSent := some head, written := g.written ++ [data] } := by
  rw [write, hset, hsent]
  rfl

theorem Gateway.write_of_sent {g : Gateway} (data : Bytes) (hset : g.headersSet ≠ none)
    (hsent : g.headersSent ≠ none) :
    g.write data = some { g with written := g.written ++ [data] } := by
  rw [write, if_neg hset, if_neg hsent]

/-- Once the head is out, the gateway writes the chunks that the bridge yields. -/
theorem iterate_started {s : ResponseState} {g : Gateway} {body : Body}
    (hstarted : s.started = true)
    (hset : g.headersSet ≠ none) (hsent : g.headersSent ≠ none) (hconf : body.Conforms int true) :
    g.iterate body =
      ({ g with written := g.written ++ (chunksFrom int s body).1 },
        (chunksFrom int s body).2) := by
  induction body generalizing g with
  | startResponse status headers excInfo returned raised ihreturned ihraised =>
    obtain ⟨-, hexc, -, hraised⟩ := hconf
    -- only an error can still be reported, and neither takes it
    have hbridge : s.startResponse int status headers excInfo = none := if_pos ⟨hexc rfl, hstarted⟩
    have hgateway : g.startResponse status headers excInfo = none := by
      rw [Gateway.startResponse, if_pos (hexc rfl), if_pos (Option.isSome_iff_ne_none.2 hsent)]
    rw [Gateway.iterate, hgateway, chunksFrom, hbridge]
    exact ihraised hset hsent hraised
  | yields chunk rest ih =>
    rw [Gateway.iterate, chunksFrom]
    by_cases hne : chunk ≠ []
    · have hrest := @ih { g with written := g.written ++ [chunk] } hset hsent hconf
      rw [if_pos hne, if_pos hne, Gateway.write_of_sent chunk hset hsent]
      dsimp only
      rw [hrest, List.append_assoc]
      rfl
    · rw [if_neg hne, if_neg hne]
      exact ih hset hsent hconf
  | stops => rw [Gateway.iterate, if_neg hsent, chunksFrom, List.append_nil]
  | raises => rw [Gateway.iterate, chunksFrom, List.append_nil]

/-- Both call the application. -/
theorem Alike.runApp {set : Bool} {s : ResponseState} {g : Gateway} {app : App}
    (h : Alike int set s g) (hconf : app.Conforms int set) :
    (runApp int s app).2 = (g.call app).2 ∧
      ∃ set', Alike int set' (runApp int s app).1 (g.call app).1 ∧
        ∀ it, (runApp int s app).2 = some it → it.body.Conforms int set' := by
  induction app generalizing set s g with
  | startResponse status headers excInfo returned raised ihreturned ihraised =>
    obtain ⟨hwire, hexc, hreturned, hraised⟩ := hconf
    obtain ⟨s', g', hbridge, hgateway, halike⟩ := h.startResponse hwire hexc
    rw [Wsgi.runApp, hbridge, Gateway.call, hgateway]
    exact ihreturned halike hreturned
  | returns iterable =>
    refine ⟨rfl, set, h, fun it hit => ?_⟩
    cases hit
    exact hconf
  | raises => exact ⟨rfl, set, h, fun it hit => nomatch hit⟩

/-- No empty chunk is written. -/
theorem mem_chunksFrom {s : ResponseState} {body : Body} :
    ∀ chunk ∈ (chunksFrom int s body).1, chunk ≠ [] := by
  induction body generalizing s with
  | startResponse status headers excInfo returned raised ihreturned ihraised =>
    rw [chunksFrom]
    split
    · exact ihreturned
    · exact ihraised
  | yields chunk rest ih =>
    rw [chunksFrom]
    split
    · rename_i hne
      intro b hb
      rcases List.mem_cons.1 hb with rfl | hb
      · exact hne
      · exact ih b hb
    · exact ih
  | stops => exact fun chunk h => absurd h List.not_mem_nil
  | raises => exact fun chunk h => absurd h List.not_mem_nil

/-- For every application that keeps to the rules for `start_response`: the bridge hands over the
head and the data that the gateway sends, raises behind them when the gateway does, hands over
nothing when the gateway sends nothing, and calls `close` as often. -/
theorem runWsgi_eq_gateway (int : Str → Option Nat) (app : App) (hconf : app.Conforms int false) :
    runWsgi int app =
      ⟨(gateway app).head.bind fun head => (responseOf int head.1 head.2).map fun r =>
        (r, (gateway app).written.filter (· ≠ []), (gateway app).raises),
            (gateway app).closes⟩ := by
  -- Both start from nothing; `Alike` is kept by the call and by each pull.
  have hnew : Alike int false ⟨none, false⟩ ⟨none, none, []⟩ :=
    ⟨rfl, rfl, rfl, rfl, (fun _ hnone => nomatch hnone), rfl⟩
  obtain ⟨hsame, set, halike, hbody⟩ := hnew.runApp hconf
  rw [runWsgi, gateway]
  generalize hcall : runApp int ⟨none, false⟩ app = called at *
  generalize hgate : Gateway.call ⟨none, none, []⟩ app = gated at *
  obtain ⟨s, r⟩ := called
  obtain ⟨g, r'⟩ := gated
  cases hsame
  cases r with
  | none => rfl
  | some it =>
    have hpulls := halike.pullFirst (hbody it rfl)
    dsimp only
    generalize pullFirst int s it.body = pulled at *
    obtain ⟨s', first⟩ := pulled
    cases hpulls with
    -- the first chunk raises: neither has sent anything
    | raised _ g' hiter hunsent =>
      dsimp only
      rw [hiter, hunsent]
      rfl
    -- the iterable is empty: the head goes out without a body
    | exhausted set _ g' halike' hiter =>
      dsimp only
      rw [hiter, Gateway.iterate, if_pos halike'.unsent, halike'.same]
      cases hset : g'.headersSet with
      | none =>
        rw [Gateway.write_of_unset [] hset, Option.getD_none, halike'.unsent]
        rfl
      | some head =>
        rw [Gateway.write_of_unsent [] hset halike'.unsent, halike'.unwritten]
        rfl
    -- a first chunk: the head goes out before it
    | chunk set _ g' b rest halike' hne hrest hiter =>
      dsimp only
      rw [hiter, Gateway.iterate, if_pos hne]
      cases hset : g'.headersSet with
      | none =>
        rw [Gateway.write_of_unset b hset, halike'.same, hset]
        dsimp only
        rw [halike'.unsent]
        rfl
      | some head =>
        have htrue : set = true := by rw [← halike'.set, hset]; rfl
        subst htrue
        rw [Gateway.write_of_unsent b hset halike'.unsent, halike'.unwritten]
        dsimp only
        rw [iterate_started (s := { s' with started := true }) rfl
          (by rw [hset]; simp) (by simp) hrest]
        -- the bridge drops the empty chunks while it reads, the gateway in what it has written
        have hfilter : (b :: (chunksFrom int { s' with started := true } rest).1).filter (· ≠ []) =
            b :: (chunksFrom int { s' with started := true } rest).1 := by
          apply List.filter_eq_self.2
          intro chunk hchunk
          rcases List.mem_cons.1 hchunk with rfl | hchunk
          · exact decide_eq_true hne
          · exact decide_eq_true (mem_chunksFrom chunk hchunk)
        change _ = Run.mk ((responseOf int head.1 head.2).map fun r =>
          (r, (([] ++ [b]) ++ (chunksFrom int { s' with started := true } rest).1).filter
            (· ≠ []), _)) _
        have hresponse : s'.response = responseOf int head.1 head.2 := by
          rw [halike'.same, hset]
          rfl
        rw [List.nil_append, List.singleton_append, hfilter, ← hresponse]

end

/-- `int`, for texts in ASCII. -/
def asciiInt (s : Str) : Option Nat :=
  (encodeAscii s).bind fun b => (Bytes.int b).bind fun n => if 0 ≤ n then some n.toNat else none

/-- An application that sets its head, yields an empty chunk, reports an error while that is still
possible, and another one when it is not. -/
def failingApp : App :=
  .startResponse "200 OK".toList [] false
    (.returns ⟨.yields [] (.startResponse "500 Oops".toList [] true
      (.yields [97] (.startResponse "501 Late".toList [] true .stops .raises)) .raises), true⟩)
    .raises

theorem runWsgi_eq_gateway_failingApp :
    runWsgi asciiInt failingApp =
      ⟨some (⟨500, [], "Oops".toList.map fun c => c.toNat.toUInt8⟩, [[97]], true), 1⟩ ∧
    runWsgi asciiInt failingApp =
      ⟨(gateway failingApp).head.bind fun head => (responseOf asciiInt head.1 head.2).map fun r =>
        (r, (gateway failingApp).written.filter (· ≠ []), (gateway failingApp).raises),
        (gateway failingApp).closes⟩ := by
  refine ⟨by decide, runWsgi_eq_gateway asciiInt failingApp ?_⟩
  exact ⟨by decide, nofun,
    ⟨by decide, fun _ => rfl, ⟨by decide, fun _ => rfl, trivial, trivial⟩, trivial⟩, trivial⟩

end LocalPost.Http.Wsgi
