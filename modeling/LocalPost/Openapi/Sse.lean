import LocalPost.Core.EventStream
import LocalPost.Http.Types

/-!
# Server-sent events

`sse.py`: an event is a list of lines, the payload's text one `data` line for each of its lines, and
an empty line ends it. A payload that is neither text nor bytes goes through the adapter that claims
its type; what the adapters' libraries make of a value is a parameter here.
-/

set_option autoImplicit false

namespace LocalPost.Openapi.Sse

open LocalPost.Core.Utf8 LocalPost.Core.EventStream
open LocalPost.Http

/-- What encoding raises; `adapter` stands for the errors of the serialising libraries. -/
inductive Exc where
  | unicodeEncodeError
  | unicodeDecodeError
  | valueError
  | typeError
  | adapter
  deriving DecidableEq, Repr

/-! ## Adapters -/

/-- `TypeAdapter`, without the content type of a body. -/
structure TypeAdapter (T V : Type) where
  claims : T → Bool
  encode : V → Except Exc Bytes

/-- `AdapterRegistry`, which has at least one adapter. -/
structure AdapterRegistry (T V : Type) where
  adapters : List (TypeAdapter T V)
  type : V → T
  nonempty : adapters ≠ []

variable {T V : Type}

/-- The first adapter that claims the type, else the last. -/
def AdapterRegistry.forType (r : AdapterRegistry T V) (t : T) : TypeAdapter T V :=
  (r.adapters.find? fun adapter => adapter.claims t).getD (r.adapters.getLast r.nonempty)

def AdapterRegistry.forValue (r : AdapterRegistry T V) (value : V) : TypeAdapter T V :=
  r.forType (r.type value)

/-! ## Events -/

/-- The data of an event. -/
inductive Payload (V : Type) where
  | str (s : Text)
  | bytes (b : Bytes)
  | value (v : V)
  deriving DecidableEq

/-- `Event`. -/
structure Event (V : Type) where
  data : Payload V
  event : Option Text
  id : Option Text
  retry : Option Int
  comment : Option Text
  deriving DecidableEq

/-- What a source yields. -/
inductive Item (V : Type) where
  | event (e : Event V)
  | bare (payload : Payload V)

/-- `bytes.decode("utf-8")`. -/
def decodeUtf8 (b : Bytes) : Except Exc Text :=
  match decode b with
  | some s => .ok s
  | none => .error .unicodeDecodeError

/-- `str.encode("utf-8")`. -/
def encodeUtf8 (s : Text) : Except Exc Bytes :=
  match encode s with
  | some b => .ok b
  | none => .error .unicodeEncodeError

/-- The digits that the conversion of an integer may have. -/
def intMaxStrDigits : Nat := 4300

/-- An integer in a format string. -/
def formatInt (n : Int) : Except Exc Text :=
  if intMaxStrDigits < (Nat.toDigits 10 n.natAbs).length then .error .valueError
  else if n < 0 then .ok (ofChars ('-' :: Nat.toDigits 10 n.natAbs))
  else .ok (ofChars (Nat.toDigits 10 n.natAbs))

/-- The text of a payload. -/
def payloadText (adapters : AdapterRegistry T V) : Payload V → Except Exc Text
  | .str s => .ok s
  | .bytes b => decodeUtf8 b
  | .value v => ((adapters.forValue v).encode v).bind decodeUtf8

/-- `format_data_field`. -/
def formatDataField (adapters : AdapterRegistry T V) (payload : Payload V) : Except Exc Text :=
  (payloadText adapters payload).map fun text =>
    [lf].intercalate ((text.splitOn lf).map fun line => ofChars "data: ".toList ++ line)

/-- The lines in front of the data, but for `retry`. -/
def commentLines (comment : Option Text) : List Text :=
  match comment with
  | some c => (c.splitOn lf).map fun line => ofChars ": ".toList ++ line
  | none => []

/-- The line of an optional field. -/
def fieldLine (label : String) (value : Option Text) : List Text :=
  match value with
  | some v => [ofChars label.toList ++ v]
  | none => []

/-- `encode_event`. -/
def encodeEvent (adapters : AdapterRegistry T V) : Item V → Except Exc Bytes
  | .event e => do
    let retry ← match e.retry with
      | some n => (formatInt n).map some
      | none => pure none
    let data ← formatDataField adapters e.data
    let lines := commentLines e.comment ++ fieldLine "event: " e.event ++ fieldLine "id: " e.id ++
      fieldLine "retry: " retry ++ [data]
    encodeUtf8 ([lf].intercalate lines ++ [lf, lf])
  | .bare payload => do
    let data ← formatDataField adapters payload
    encodeUtf8 (data ++ [lf, lf])

/-- What `iter_events` is called with. -/
inductive Source (V : Type) where
  | iterable (items : List (Item V))
  | eventStream (source : Source V)
  | other

/-- The chunks of a list of items, up to the first that raises. -/
def encodeEach (adapters : AdapterRegistry T V) : List (Item V) → List Bytes × Option Exc
  | [] => ([], none)
  | item :: rest =>
    match encodeEvent adapters item with
    | .error e => ([], some e)
    | .ok chunk => (chunk :: (encodeEach adapters rest).1, (encodeEach adapters rest).2)

/-- `EventStream` is taken off once. -/
def Source.unwrap : Source V → Source V
  | .eventStream source => source
  | source => source

/-- `iter_events`: the chunks it yields, and what it raises behind them. -/
def iterEvents (adapters : AdapterRegistry T V) (source : Source V) : List Bytes × Option Exc :=
  match source.unwrap with
  | .iterable items => encodeEach adapters items
  | .eventStream _ => ([], some .typeError)
  | .other => ([], some .typeError)

/-! ## The lines of an event -/

/-- The event that an item stands for. -/
def Item.asEvent : Item V → Event V
  | .event e => e
  | .bare payload => ⟨payload, none, none, none, none⟩

/-- The lines in front of the data. -/
def headLines (e : Event V) (retry : Option Text) : List Text :=
  commentLines e.comment ++ fieldLine "event: " e.event ++ fieldLine "id: " e.id ++
    fieldLine "retry: " retry

/-- The `data` lines of a text. -/
def dataLines (text : Text) : List Text := (text.splitOn lf).map (labelled dataName)

/-- The lines of an event with the texts of its payload and of its delay. -/
def eventLines (e : Event V) (text : Text) (retry : Option Text) : List Text :=
  headLines e retry ++ dataLines text

/-- Lines with their ends, and the empty line. -/
def block (ls : List Text) : Text := ls.flatMap (fun l => l ++ [lf]) ++ [lf]

end LocalPost.Openapi.Sse
