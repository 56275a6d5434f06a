import LocalPost.Core.JsonRoundTrip
import LocalPost.Http.Compress.Framing
import LocalPost.Http.Static.Served
import LocalPost.Http.Writer.Sent

/-!
# What a handler returns

`_wrap_response` makes a response and a body of what the function of a route returns. What the
client receives is what was returned (`returned_received`): the text, the bytes, or a JSON text that
is read back as the value.
-/

set_option autoImplicit false

namespace LocalPost.Http.App

open LocalPost.Core LocalPost.Http.Writer
open LocalPost.Core.Utf8 (Text ofChars)

universe u

/-- A key of a dictionary. -/
inductive Key (Φ : Type u) where
  | none
  | bool (b : Bool)
  | int (n : Int)
  | float (x : Φ)
  | infinity (negative : Bool)
  | nan
  | str (s : Text)
  | other

/-- An object, as `json.dumps` looks at it. A tuple is a list. -/
inductive Value (Φ : Type u) where
  | none
  | bool (b : Bool)
  | int (n : Int)
  | float (x : Φ)
  | infinity (negative : Bool)
  | nan
  | str (s : Text)
  | list (items : List (Value Φ))
  | dict (entries : List (Key Φ × Value Φ))
  | other

/-- The second half of a pair: `bytes`, another buffer, a number, numbers, or something else. -/
inductive Buffer where
  | bytes (b : Bytes)
  | view (b : Bytes)
  | count (n : Int)
  | numbers (ns : List Int)
  | other

/-- What the function of a route returns. -/
inductive Returned (Φ : Type u) where
  | response (r : Response)
  | none
  | pair (r : Response) (body : Buffer)
  | str (s : Text)
  | bytes (b : Bytes)
  | list (items : List (Value Φ))
  | dict (entries : List (Key Φ × Value Φ))
  | other

variable {Φ : Type u} (F : Json.Floats Φ) (limit : Nat)

/-- The text of a key; `none` is the `TypeError` or the `ValueError` of `json.dumps`. -/
def Key.text : Key Φ → Option Text
  | .none => some (ofChars (Json.write F .null))
  | .bool b => some (ofChars (Json.write F (.bool b)))
  | .int n => if Json.TooLong limit (Json.integer n) then
    Option.none else some (ofChars (Json.integer n))
  | .float x => some (ofChars (F.text x))
  | .infinity negative => some (ofChars (Json.write F (.infinity negative)))
  | .nan => some (ofChars (Json.write F .nan))
  | .str s => some s
  | .other => Option.none

mutual

/-- The JSON value of an object; `none` is an error of `json.dumps`. -/
def Value.toJson : Value Φ → Option (Json Φ)
  | .none => some .null
  | .bool b => some (.bool b)
  | .int n => if Json.TooLong limit (Json.integer n) then Option.none else some (.int n)
  | .float x => some (.float x)
  | .infinity negative => some (.infinity negative)
  | .nan => some .nan
  | .str s => some (.str s)
  | .list items => (itemsToJson items).map .list
  | .dict entries => (entriesToJson entries).map .dict
  | .other => Option.none

/-- The JSON values of the items. -/
def itemsToJson : List (Value Φ) → Option (List (Json Φ))
  | [] => some []
  | v :: items => v.toJson.bind fun j => (itemsToJson items).map (j :: ·)

/-- The JSON values of the entries, under the texts of the keys. -/
def entriesToJson : List (Key Φ × Value Φ) → Option (List (Text × Json Φ))
  | [] => some []
  | (k, v) :: entries =>
    (k.text F limit).bind fun key => v.toJson.bind fun j =>
      (entriesToJson entries).map ((key, j) :: ·)

end

/-- `json.dumps(value, separators=(",", ":"))`. -/
def dumps (v : Value Φ) : Option Str := (v.toJson F limit).map (Json.write F)

/-- `bytes(body)`; `none` is its `TypeError` or `ValueError`. -/
def Buffer.toBytes : Buffer → Option Bytes
  | .bytes b => some b
  | .view b => some b
  | .count n => if 0 ≤ n then some (List.replicate n.toNat 0) else none
  | .numbers ns => if ∀ n ∈ ns, 0 ≤ n ∧ n < 256 then
    some (ns.map fun n => UInt8.ofNat n.toNat) else none
  | .other => none

/-- `b"application/json"`. -/
def applicationJson : Bytes :=
  [97, 112, 112, 108, 105, 99, 97, 116, 105, 111, 110, 47, 106, 115, 111, 110]

/-- `_build_response`. -/
def buildResponse (status : Nat) (contentType body : Bytes) : Response :=
  ⟨status,
    [(Bytes.contentTypeName, contentType), (Bytes.contentLengthName, decimalText body.length)], []⟩

/-- The response to `None`. -/
def noContent : Response := ⟨204, [(Bytes.contentLengthName, [48])], []⟩

/-- The response to a value that is written as JSON. -/
def wrapJson (v : Value Φ) : Option (Response × Bytes) :=
  (dumps F limit v).bind fun text => (Utf8.encode (ofChars text)).map fun body =>
    (buildResponse 200 applicationJson body, body)

/-- `_wrap_response`; `none` is the `TypeError` at its end or an error on the way there. -/
def wrapResponse : Returned Φ → Option (Response × Bytes)
  | .response r => some (r, [])
  | .none => some (noContent, [])
  | .pair r body => body.toBytes.map fun b => (r, b)
  | .str s => (Utf8.encode s).map fun body => (buildResponse 200 Bytes.plainText body, body)
  | .bytes b => some (buildResponse 200 Bytes.octetStream b, b)
  | .list items => wrapJson F limit (.list items)
  | .dict entries => wrapJson F limit (.dict entries)
  | .other => Option.none

/-! ## What the client reads -/

/-- A response of `_build_response`, or the one to `None`. -/
def Returned.Built : Returned Φ → Prop
  | .response _ | .pair _ _ => False
  | _ => True

/-- The result is a text that is read back as the value, if the value is one that a text carries. -/
def ReadsJson (v : Value Φ) (result : Nat × Bytes) : Prop :=
  result.1 = 200 ∧ ∃ j text, v.toJson F limit = some j ∧ Utf8.decode result.2 =
    some (ofChars text) ∧ (Json.Whole limit j → Json.loads F limit text = some j)

/-- Status and body are those of what was returned. -/
def ReadsAs (method : Bytes) : Returned Φ → Nat × Bytes → Prop
  | .response r, result => result = (r.statusCode, [])
  | .none, result => result = (204, [])
  | .pair r body, result =>
    result.1 = r.statusCode ∧
      body.toBytes.map
        (fun b => if responseAllowsBody method r.statusCode then b else []) = some result.2
  | .str s, result => result.1 = 200 ∧ Utf8.decode result.2 = some s
  | .bytes b, result => result = (200, b)
  | .list items, result => ReadsJson F limit (.list items) result
  | .dict entries, result => ReadsJson F limit (.dict entries) result
  | .other, _ => False

theorem declares_buildResponse {contentType body : Bytes} (status : Nat) :
    (buildResponse status contentType body).Declares body.length := by
  refine Static.declares_of_append [(Bytes.contentTypeName, contentType)] []
    (fun header hheader => ?_) fun header hheader => absurd hheader List.not_mem_nil
  rw [List.mem_singleton.1 hheader]
  exact (by decide : Static.Other Bytes.contentTypeName)

theorem declares_noContent : noContent.Declares 0 := by
  decide

variable {F limit}

/-- A response that is built declares the length of its body. -/
theorem declares_of_built {v : Returned Φ} {r : Response} {body : Bytes} (hbuilt : v.Built)
    (h : wrapResponse F limit v = some (r, body)) : r.Declares body.length := by
  have hjson : ∀ w : Value Φ, wrapJson F limit w = some (r, body) → r.Declares body.length := by
    intro w hw
    obtain ⟨text, -, hw⟩ := Option.bind_eq_some_iff.1 hw
    obtain ⟨b, -, hw⟩ := Option.map_eq_some_iff.1 hw
    cases hw
    exact declares_buildResponse 200
  cases v with
  | response r' => exact hbuilt.elim
  | none =>
    cases h
    exact declares_noContent
  | pair r' b => exact hbuilt.elim
  | str s =>
    obtain ⟨b, -, hb⟩ := Option.map_eq_some_iff.1 h
    cases hb
    exact declares_buildResponse 200
  | bytes b =>
    cases h
    exact declares_buildResponse 200
  | list items => exact hjson _ h
  | dict entries => exact hjson _ h
  | other => cases h

theorem readsJson_of_wrapJson (hF : F.Documented) {v : Value Φ} {r : Response} {body : Bytes}
    (h : wrapJson F limit v = some (r, body)) : r.statusCode = 200 ∧
    ReadsJson F limit v (200, body) := by
  obtain ⟨text, htext, hbody⟩ := Option.bind_eq_some_iff.1 h
  obtain ⟨b, hb, heq⟩ := Option.map_eq_some_iff.1 hbody
  obtain ⟨j, hj, htext⟩ := Option.map_eq_some_iff.1 htext
  cases heq
  subst htext
  exact ⟨rfl, rfl, j, _, hj, Utf8.decode_of_encode hb, Json.loads_write hF⟩

/-- What a client makes of the response and the body of what was returned. -/
theorem readsAs_of_wrapResponse (hF : F.Documented) {v : Returned Φ} {r : Response}
    {body method : Bytes}
    (hhead : method ≠ headMethod) (h : wrapResponse F limit v = some (r, body)) :
    ReadsAs F limit method v
      (r.statusCode, if responseAllowsBody method r.statusCode then body else []) := by
  have hallows : responseAllowsBody method 200 = true := by
    simp [responseAllowsBody, hhead]
  -- a response goes out as it is; what has no status of its own gets 200
  cases v with
  | response r' =>
    cases h
    rw [ite_self]
    rfl
  | none =>
    cases h
    rw [ite_self]
    rfl
  | pair r' b =>
    obtain ⟨b', hb, h⟩ := Option.map_eq_some_iff.1 h
    cases h
    exact ⟨rfl, by rw [hb]; rfl⟩
  | str s =>
    obtain ⟨b, hb, h⟩ := Option.map_eq_some_iff.1 h
    cases h
    exact ⟨rfl, (congrArg Utf8.decode (if_pos hallows)).trans (Utf8.decode_of_encode hb)⟩
  | bytes b =>
    cases h
    exact congrArg (Prod.mk 200) (if_pos hallows)
  -- lists and dicts are written as JSON, and read back from it
  | list items =>
    obtain ⟨hstatus, hreads⟩ := readsJson_of_wrapJson hF h
    rw [hstatus, if_pos hallows]
    exact hreads
  | dict entries =>
    obtain ⟨hstatus, hreads⟩ := readsJson_of_wrapJson hF h
    rw [hstatus, if_pos hallows]
    exact hreads
  | other => cases h

/-- Whatever a handler returns, the client gets it: a text, bytes, a response as it is, or a JSON
text that is read back as the value. A response that is built for the value is always sent. -/
theorem returned_received (hF : F.Documented) {v : Returned Φ} {r : Response} {body : Bytes}
    (h : wrapResponse F limit v = some (r, body)) :
    (∀ method keepAlive, method ≠ headMethod → method ≠ connectMethod →
      (v.Built → (sentHttptools (.complete r (some body)) method keepAlive).isSome = true) ∧
      ∀ result, sentHttptools (.complete r (some body)) method keepAlive = some result →
        ReadsAs F limit method v result) ∧
    ∀ {ω : Type} (W : H11.Connection ω) (framing : ω → H11.Framing) (closing : ω → Bool)
      (closes : Bytes → Bool → Response → Bool), W.Documented framing closing closes →
      ∀ method keepAlive drained result, method.upper ≠ headMethod → method.upper ≠ connectMethod →
        sentH11 W (.complete r (some body)) method keepAlive drained = some result →
        ReadsAs F limit method.upper v result := by
  have hdeclared : (Answer.complete r (some body)).Declared := trivial
  constructor
  · intro method keepAlive hhead hconnect
    constructor
    · intro hbuilt
      rw [sentHttptools_body (declares_of_built hbuilt h)]
      rfl
    · intro result hsent
      rw [sentHttptools_eq hconnect rfl hdeclared hsent]
      exact readsAs_of_wrapResponse hF hhead h
  · intro ω W framing closing closes hW method keepAlive drained result hhead hconnect hsent
    rw [sentH11_eq hW hhead hconnect rfl hdeclared hsent]
    exact readsAs_of_wrapResponse hF hhead h

/-- One number, with its text. -/
def half : Json.Floats Unit where
  text _ := ['0', '.', '5']
  read s := if s = ['0', '.', '5'] then some () else none

theorem half_documented : half.Documented where
  token _ := ⟨['0'], ['.', '5'], List.cons_ne_nil _ _, rfl⟩
  read_text _ := rfl

/-- `{"k": [1, 0.5, "é"]}`. -/
def sample : Returned Unit :=
  .dict [(.str (ofChars ['k']), .list [.int 1, .float (), .str (ofChars ['é'])])]

theorem returned_received_sample :
    ∃ r body, wrapResponse half 0 sample = some (r, body) ∧
      ∃ result, sentHttptools (.complete r (some body)) [71, 69, 84] true = some result ∧
        ReadsAs half 0 [71, 69, 84] sample result := by
  have hsome : (wrapResponse half 0 sample).isSome = true := by decide
  obtain ⟨⟨r, body⟩, h⟩ := Option.isSome_iff_exists.1 hsome
  obtain ⟨hbuilt, hreads⟩ := (returned_received half_documented h).1 [71, 69, 84] true
    (by decide) (by decide)
  obtain ⟨result, hresult⟩ := Option.isSome_iff_exists.1 (hbuilt trivial)
  exact ⟨r, body, h, result, hresult, hreads result hresult⟩

end LocalPost.Http.App
