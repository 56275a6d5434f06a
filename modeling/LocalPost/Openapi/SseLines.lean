import LocalPost.Openapi.Sse
import Mathlib.Data.List.Forall2

/-!
# The lines of an event

What `encode_event` writes is a block of lines. Read by a client, the lines of an event whose fields
hold no line end set those fields and dispatch one message; a comment may hold more lines than the
encoder made of it, since a CR ends a line too.
-/

set_option autoImplicit false

namespace LocalPost.Openapi.Sse

open LocalPost.Core.Utf8 LocalPost.Core.EventStream
open LocalPost.Http

variable {T V : Type}

/-! ## What is written -/

/-- The text of a delay. -/
def retryText : Option Int → Except Exc (Option Text)
  | some n => (formatInt n).map some
  | none => pure none

/-- The lines of an event and the empty line behind them are its block. -/
theorem intercalate_block {hs ds : List Text} (hds : ds ≠ []) :
    [lf].intercalate (hs ++ [[lf].intercalate ds]) ++ [lf, lf] = block (hs ++ ds) := by
  have hne : hs ++ [[lf].intercalate ds] ≠ [] :=
    List.append_ne_nil_of_right_ne_nil _ (List.cons_ne_nil _ _)
  calc [lf].intercalate (hs ++ [[lf].intercalate ds]) ++ [lf, lf]
      = ([lf].intercalate (hs ++ [[lf].intercalate ds]) ++ [lf]) ++ [lf] := by
        rw [List.append_assoc]
        rfl
    _ = (hs.flatMap (fun l => l ++ [lf]) ++ ([lf].intercalate ds ++ [lf])) ++ [lf] := by
        rw [intercalate_append_lf hne, List.flatMap_append, List.flatMap_cons, List.flatMap_nil,
          List.append_nil]
    _ = block (hs ++ ds) := by
        rw [intercalate_append_lf hds, block, List.flatMap_append]

theorem dataLines_ne_nil (text : Text) : dataLines text ≠ [] := by
  rw [dataLines, Ne, List.map_eq_nil_iff]
  exact List.splitOn_ne_nil lf text

/-- The wire text is the block of the event's lines, for an `Event` and for a bare payload. -/
theorem encodeEvent_eq (adapters : AdapterRegistry T V) (item : Item V) :
    encodeEvent adapters item =
      (retryText item.asEvent.retry).bind fun retry =>
        (payloadText adapters item.asEvent.data).bind fun text =>
          encodeUtf8 (block (eventLines item.asEvent text retry)) := by
  -- the head lines and the data lines are joined as the lines of one block
  have hhead : ∀ (hs : List Text) (text : Text),
      encodeUtf8 ([lf].intercalate (hs ++ [[lf].intercalate (dataLines text)]) ++ [lf, lf]) =
        encodeUtf8 (block (hs ++ dataLines text)) :=
    fun hs text => congrArg encodeUtf8 (intercalate_block (dataLines_ne_nil text))
  cases item with
  | event e =>
    rw [encodeEvent, Item.asEvent, formatDataField]
    -- `retry` is formatted first, so its exception comes before that of the payload
    cases hr : e.retry with
    | none =>
      cases hp : payloadText adapters e.data with
      | error exc => rfl
      | ok text => exact hhead (headLines e none) text
    | some n =>
      change (Except.map some (formatInt n)).bind _ = (Except.map some (formatInt n)).bind _
      cases hn : formatInt n with
      | error exc => rfl
      | ok delay =>
        cases hp : payloadText adapters e.data with
        | error exc => rfl
        | ok text => exact hhead (headLines e (some delay)) text
  -- a bare payload is an event without head lines
  | bare payload =>
    rw [encodeEvent, Item.asEvent, formatDataField]
    cases hp : payloadText adapters payload with
    | error exc => rfl
    | ok text =>
      have hbare := hhead [] text
      rw [List.nil_append, List.intercalate_singleton] at hbare
      exact hbare

/-- A text is encoded exactly if it has an encoding. -/
theorem encodeUtf8_eq_ok_iff {s : Text} {b : Bytes} : encodeUtf8 s = .ok b ↔ encode s = some b := by
  rw [encodeUtf8]
  cases encode s with
  | none => exact ⟨fun h => (by cases h), fun h => (by cases h)⟩
  | some c =>
    constructor
    · intro h
      cases h
      rfl
    · intro h
      cases h
      rfl

/-- The texts that an item is written with. -/
structure Prints (adapters : AdapterRegistry T V) (item : Item V) (text : Text)
    (retry : Option Text) : Prop where
  text : payloadText adapters item.asEvent.data = .ok text
  retry : retryText item.asEvent.retry = .ok retry

/-- An event is encoded exactly if its parts can be printed and its block has an encoding. -/
theorem encodeEvent_eq_ok_iff {adapters : AdapterRegistry T V} {item : Item V} {chunk : Bytes} :
    encodeEvent adapters item = .ok chunk ↔ ∃ text retry, Prints adapters item text retry ∧
      encode (block (eventLines item.asEvent text retry)) = some chunk := by
  rw [encodeEvent_eq]
  constructor
  · intro h
    cases hr : retryText item.asEvent.retry with
    | error exc =>
      rw [hr] at h
      cases h
    | ok retry =>
      rw [hr] at h
      cases ht : payloadText adapters item.asEvent.data with
      | error exc =>
        rw [ht] at h
        cases h
      | ok text =>
        rw [ht] at h
        exact ⟨text, retry, ⟨ht, hr⟩, encodeUtf8_eq_ok_iff.1 h⟩
  · rintro ⟨text, retry, hprints, henc⟩
    rw [hprints.retry, hprints.text]
    exact encodeUtf8_eq_ok_iff.2 henc

/-- Each item gives one chunk, in order. -/
theorem encodeEach_eq_iff {adapters : AdapterRegistry T V} {items : List (Item V)}
    {chunks : List Bytes} : encodeEach adapters items = (chunks, none) ↔
      List.Forall₂ (fun item chunk => encodeEvent adapters item = .ok chunk) items chunks := by
  induction items generalizing chunks with
  | nil =>
    rw [encodeEach, List.forall₂_nil_left_iff]
    exact ⟨fun h => (Prod.mk.inj h).1.symm, fun h => h ▸ rfl⟩
  | cons item items ih =>
    rw [encodeEach, List.forall₂_cons_left_iff]
    cases hc : encodeEvent adapters item with
    | error exc =>
      constructor
      · intro h
        cases h
      · rintro ⟨chunk, rest, hok, -, -⟩
        cases hok
    | ok chunk =>
      constructor
      · intro h
        obtain ⟨hchunks, hexc⟩ := Prod.mk.inj h
        exact ⟨chunk, _, rfl, ih.1 (Prod.ext rfl hexc), hchunks.symm⟩
      · rintro ⟨chunk', rest, hok, hrest, rfl⟩
        cases hok
        rw [ih.2 hrest]

/-! ## Which texts can be written -/

theorem scalars_block {ls : List Text} : Scalars (block ls) ↔ ∀ l ∈ ls, Scalars l := by
  have hlf : Scalars [lf] := ⟨['\n'], rfl⟩
  rw [block, scalars_append]
  refine Iff.trans ⟨And.left, fun h => ⟨h, hlf⟩⟩ ?_
  induction ls with
  | nil => exact ⟨fun _ l hl => absurd hl List.not_mem_nil, fun _ => ⟨[], rfl⟩⟩
  | cons l ls ih =>
    rw [List.flatMap_cons, scalars_append, scalars_append, ih, List.forall_mem_cons]
    exact ⟨fun h => ⟨h.1.1, h.2⟩, fun h => ⟨⟨h.1, hlf⟩, h.2⟩⟩

theorem scalars_splitOn {s : Text} : (∀ l ∈ s.splitOn lf, Scalars l) ↔ Scalars s := by
  have hlf : Scalars [lf] := ⟨['\n'], rfl⟩
  rw [← scalars_block, block, flatMap_splitOn, scalars_append, scalars_append]
  exact ⟨fun h => h.1.1, fun h => ⟨⟨h, hlf⟩, hlf⟩⟩

theorem scalars_label {label : List Char} {ls : List Text} :
    (∀ l ∈ ls.map (fun line => ofChars label ++ line), Scalars l) ↔ ∀ l ∈ ls, Scalars l := by
  rw [List.forall_mem_map]
  refine forall₂_congr fun l _ => ?_
  rw [scalars_append]
  exact ⟨And.right, fun h => ⟨scalars_ofChars label, h⟩⟩

/-- A field line has an encoding exactly if its value has. -/
theorem scalars_fieldLine {label : String} {value : Option Text} :
    (∀ l ∈ fieldLine label value, Scalars l) ↔ ∀ v, value = some v → Scalars v := by
  cases value with
  | none => exact ⟨fun _ v hv => (by cases hv), fun _ l hl => absurd hl List.not_mem_nil⟩
  | some v =>
    rw [fieldLine, List.forall_mem_singleton, scalars_append]
    constructor
    · intro h w hw
      cases hw
      exact h.2
    · intro h
      exact ⟨scalars_ofChars _, h v rfl⟩

/-- Comment lines have an encoding exactly if the comment has. -/
theorem scalars_commentLines {comment : Option Text} :
    (∀ l ∈ commentLines comment, Scalars l) ↔ ∀ t, comment = some t → Scalars t := by
  cases comment with
  | none => exact ⟨fun _ v hv => (by cases hv), fun _ l hl => absurd hl List.not_mem_nil⟩
  | some t =>
    rw [commentLines, scalars_label, scalars_splitOn]
    constructor
    · intro h w hw
      cases hw
      exact h
    · intro h
      exact h t rfl

theorem scalars_dataLines {text : Text} : (∀ l ∈ dataLines text, Scalars l) ↔ Scalars text := by
  rw [← scalars_splitOn]
  exact @scalars_label "data: ".toList (text.splitOn lf)

/-- A delay is written in digits. -/
theorem scalars_of_retryText {n : Option Int} {retry : Option Text} (h : retryText n = .ok retry) :
    ∀ v, retry = some v → Scalars v := by
  rintro v rfl
  cases n with
  | none => cases h
  | some n =>
    rw [retryText, formatInt] at h
    split at h
    · cases h
    · split at h
      · cases h
        exact scalars_ofChars _
      · cases h
        exact scalars_ofChars _

/-- An event is written where none of its texts has a surrogate. -/
theorem scalars_eventLines {e : Event V} {text : Text} {retry : Option Text}
    (hretry : retryText e.retry = .ok retry) : Scalars (block (eventLines e text retry)) ↔
      (∀ t, e.comment = some t → Scalars t) ∧ (∀ n, e.event = some n → Scalars n) ∧
        (∀ i, e.id = some i → Scalars i) ∧ Scalars text := by
  rw [scalars_block, eventLines, headLines]
  simp only [List.forall_mem_append]
  rw [scalars_commentLines, scalars_fieldLine, scalars_fieldLine,
    scalars_fieldLine, scalars_dataLines]
  constructor
  · rintro ⟨⟨⟨⟨hc, he⟩, hi⟩, -⟩, ht⟩
    exact ⟨hc, he, hi, ht⟩
  · rintro ⟨hc, he, hi, ht⟩
    exact ⟨⟨⟨⟨hc, he⟩, hi⟩, scalars_of_retryText hretry⟩, ht⟩

/-! ## What is read -/

/-- What a client reads as lines of their own in a comment: in each line of the comment what stands
behind a CR. -/
def loose (comment : Option Text) : List Text :=
  match comment with
  | some t => (t.splitOn lf).flatMap fun line => (cut line).tail
  | none => []

/-- The fields of an event, taken in by a client. -/
def settle (c : Client) (e : Event V) : Client where
  data := c.data
  eventType := e.event.getD c.eventType
  lastEventId := e.id.getD c.lastEventId
  reconnectionTime := (e.retry.map Int.toNat).getD c.reconnectionTime

/-- The client behind an event. -/
def idle (c : Client) (e : Event V) : Client :=
  ⟨[], [], (settle c e).lastEventId, (settle c e).reconnectionTime⟩

/-- The message of an event with the text of its payload. -/
def messageOf (c : Client) (e : Event V) (text : Text) : Message :=
  ⟨(settle c e).type, c.data ++ text, (settle c e).lastEventId, (settle c e).reconnectionTime⟩

/-- An event whose fields reach a client: no line end in the name or the id, no CR in the data, no
empty name, no NUL in the id, no negative delay. -/
structure Fits (e : Event V) (text : Text) : Prop where
  text : cr ∉ text
  event : ∀ n, e.event = some n → n ≠ [] ∧ OneLine n
  id : ∀ i, e.id = some i → OneLine i ∧ nul ∉ i
  retry : ∀ n, e.retry = some n → 0 ≤ n

/-- Of a line with a colon in front, a client reads what a CR cuts off. -/
theorem cut_comment (line : Text) : ∃ first,
    cut (ofChars ": ".toList ++ line) = (colon :: first) :: (cut line).tail := by
  have honeLine : OneLine (ofChars ": ".toList) := ⟨by decide, by decide⟩
  rw [cut_oneLine_append honeLine]
  cases hcut : cut line with
  | nil => exact absurd hcut (cut_ne_nil line)
  | cons first rest => exact ⟨space :: first, rfl⟩

/-- Comment lines change nothing of the client but what is loose in them. -/
theorem after_commentLines (c : Client) (comment : Option Text) :
    after c ((commentLines comment).flatMap cut) = after c (loose comment) := by
  cases comment with
  | none => rfl
  | some t =>
    rw [commentLines, loose]
    induction t.splitOn lf generalizing c with
    | nil => rfl
    | cons line ls ih =>
      obtain ⟨first, hfirst⟩ := cut_comment line
      rw [List.map_cons, List.flatMap_cons, List.flatMap_cons, after_append, after_append, hfirst,
        after_cons, processLine_colon, ih]

/-- Comment lines dispatch nothing but what is loose in them. -/
theorem messages_commentLines (c : Client) (comment : Option Text) :
    messages c ((commentLines comment).flatMap cut) = messages c (loose comment) := by
  cases comment with
  | none => rfl
  | some t =>
    rw [commentLines, loose]
    induction t.splitOn lf generalizing c with
    | nil => rfl
    | cons line ls ih =>
      obtain ⟨first, hfirst⟩ := cut_comment line
      have hafter : after c ((colon :: first) :: (cut line).tail) = after c (cut line).tail := by
        rw [after_cons, processLine_colon]
      rw [List.map_cons, List.flatMap_cons, List.flatMap_cons, messages_append, messages_append,
        hfirst, hafter, ih, messages, dispatched_cons, processLine_colon, List.nil_append]

theorem chars_ofChars (cs : List Char) : chars (ofChars cs) = cs := by
  induction cs with
  | nil => rfl
  | cons c cs ih => exact congrArg (List.cons c) ih

/-- A delay that is not negative reads back. -/
theorem number_toDigits (n : Nat) : number (ofChars (Nat.toDigits 10 n)) = some n := by
  have hne : ofChars (Nat.toDigits 10 n) ≠ [] := by
    rw [ofChars, Ne, List.map_eq_nil_iff]
    exact Nat.toDigits_ne_nil
  have hdigits : (ofChars (Nat.toDigits 10 n)).all isDigit = true := by
    rw [List.all_eq_true]
    intro p hp
    obtain ⟨c, hc, rfl⟩ := List.mem_map.1 hp
    exact Nat.isDigit_of_mem_toDigits (by decide) (by decide) hc
  rw [number, if_pos ⟨hne, hdigits⟩, chars_ofChars, Nat.ofDigitChars_ten_toDigits]

theorem oneLine_toDigits (n : Nat) : OneLine (ofChars (Nat.toDigits 10 n)) := by
  have hdigit : ∀ c, CodePoint.scalar c ∈ ofChars (Nat.toDigits 10 n) → c.isDigit = true :=
    fun c hc => Nat.isDigit_of_mem_toDigits (by decide) (by decide) (mem_ofChars.1 hc)
  constructor
  · intro h
    exact absurd (hdigit _ h) (by decide)
  · intro h
    exact absurd (hdigit _ h) (by decide)

/-- What is written of a delay that is not negative. -/
theorem retryText_of_nonneg {n : Int} (h : 0 ≤ n) {retry : Option Text}
    (hr : retryText (some n) = .ok retry) : retry = some (ofChars (Nat.toDigits 10 n.toNat)) := by
  have habs : n.natAbs = n.toNat := by omega
  rw [retryText, formatInt, habs] at hr
  split at hr
  · cases hr
  · rw [if_neg (by omega)] at hr
    cases hr
    rfl

/-- A line without line ends is one line to the client. -/
theorem cut_labelled {name value : Text} (hname : OneLine name) (hvalue : OneLine value) :
    cut (labelled name value) = [labelled name value] := by
  have hlabel : OneLine [colon, space] := ⟨by decide, by decide⟩
  apply cut_oneLine
  constructor
  · intro h
    rcases List.mem_append.1 h with h | h
    · exact hname.1 h
    · rcases List.mem_append.1 (show cr ∈ [colon, space] ++ value from h) with h | h
      · exact hlabel.1 h
      · exact hvalue.1 h
  · intro h
    rcases List.mem_append.1 h with h | h
    · exact hname.2 h
    · rcases List.mem_append.1 (show lf ∈ [colon, space] ++ value from h) with h | h
      · exact hlabel.2 h
      · exact hvalue.2 h

theorem fieldLine_eq {label : String} {name : Text}
    (h : ofChars label.toList = name ++ [colon, space])
    (value : Option Text) : fieldLine label value = value.toList.map (labelled name) := by
  cases value with
  | none => rfl
  | some v =>
    rw [fieldLine, h, List.append_assoc]
    rfl

/-- A field without a line end is one line for the client, and dispatches nothing. -/
theorem read_labelled {name value : Text} (hname : OneLine name) (hne : name ≠ [])
    (hcolon : colon ∉ name) (hvalue : OneLine value) (c : Client) :
    after c ([labelled name value].flatMap cut) = field c name value ∧
      messages c ([labelled name value].flatMap cut) = [] := by
  rw [List.flatMap_singleton, cut_labelled hname hvalue]
  constructor
  · exact processLine_labelled hne hcolon c value
  · rw [messages, dispatched_labelled hne]
    rfl

/-- The client takes the type of the event, and dispatches nothing. -/
theorem read_event {e : Event V} {text : Text} (hfits : Fits e text) (c : Client) :
    after c ((fieldLine "event: " e.event).flatMap cut) =
        { c with eventType := e.event.getD c.eventType } ∧
      messages c ((fieldLine "event: " e.event).flatMap cut) = [] := by
  rw [fieldLine_eq (show _ = eventName ++ [colon, space] from rfl)]
  cases hn : e.event with
  | none => exact ⟨rfl, rfl⟩
  | some n =>
    obtain ⟨hafter, hmsg⟩ := read_labelled (show OneLine eventName from ⟨by decide, by decide⟩)
      (by decide) (by decide) (hfits.event n hn).2 c
    exact ⟨hafter.trans (if_pos rfl), hmsg⟩

/-- The client takes the id, and dispatches nothing. -/
theorem read_id {e : Event V} {text : Text} (hfits : Fits e text) (c : Client) :
    after c ((fieldLine "id: " e.id).flatMap cut) =
        { c with lastEventId := e.id.getD c.lastEventId } ∧
      messages c ((fieldLine "id: " e.id).flatMap cut) = [] := by
  rw [fieldLine_eq (show _ = idName ++ [colon, space] from rfl)]
  cases hi : e.id with
  | none => exact ⟨rfl, rfl⟩
  | some i =>
    obtain ⟨hafter, hmsg⟩ := read_labelled (show OneLine idName from ⟨by decide, by decide⟩)
      (by decide) (by decide) (hfits.id i hi).1 c
    refine ⟨hafter.trans ?_, hmsg⟩
    rw [field, if_neg (by decide), if_neg (by decide), if_pos rfl, if_neg (hfits.id i hi).2]
    rfl

/-- The client takes the reconnection time, and dispatches nothing. -/
theorem read_retry {e : Event V} {text : Text} (hfits : Fits e text) {retry : Option Text}
    (hretry : retryText e.retry = .ok retry) (c : Client) :
    after c ((fieldLine "retry: " retry).flatMap cut) =
        { c with reconnectionTime := (e.retry.map Int.toNat).getD c.reconnectionTime } ∧
      messages c ((fieldLine "retry: " retry).flatMap cut) = [] := by
  rw [fieldLine_eq (show _ = retryName ++ [colon, space] from rfl)]
  cases hn : e.retry with
  | none =>
    rw [hn] at hretry
    cases hretry
    exact ⟨rfl, rfl⟩
  | some n =>
    rw [hn] at hretry
    cases retryText_of_nonneg (hfits.retry n hn) hretry
    obtain ⟨hafter, hmsg⟩ := read_labelled (show OneLine retryName from ⟨by decide, by decide⟩)
      (by decide) (by decide) (oneLine_toDigits n.toNat) c
    refine ⟨hafter.trans ?_, hmsg⟩
    rw [field, if_neg (by decide), if_neg (by decide), if_neg (by decide),
      if_pos rfl, number_toDigits]
    rfl

/-- The lines in front of the data, for an event that fits. -/
theorem read_headLines {e : Event V} {text : Text} (hfits : Fits e text) {retry : Option Text}
    (hretry : retryText e.retry = .ok retry) (c : Client) :
    after c ((headLines e retry).flatMap cut) = settle (after c (loose e.comment)) e ∧
      messages c ((headLines e retry).flatMap cut) = messages c (loose e.comment) := by
  rw [headLines, List.flatMap_append, List.flatMap_append, List.flatMap_append]
  simp only [after_append, messages_append]
  rw [after_commentLines, messages_commentLines]
  generalize after c (loose e.comment) = d
  obtain ⟨hevent, hevent'⟩ := read_event hfits d
  rw [hevent, hevent']
  obtain ⟨hid, hid'⟩ := read_id hfits { d with eventType := e.event.getD d.eventType }
  rw [hid, hid']
  obtain ⟨hdelay, hdelay'⟩ := read_retry hfits hretry
    ⟨d.data, e.event.getD d.eventType, e.id.getD d.lastEventId, d.reconnectionTime⟩
  rw [hdelay, hdelay', List.append_nil, List.append_nil, List.append_nil]
  exact ⟨rfl, rfl⟩

/-- Data lines without a CR are lines to the client. -/
theorem flatMap_cut_dataLines {text : Text} (h : cr ∉ text) :
    (dataLines text).flatMap cut = dataLines text := by
  have hname : OneLine dataName := ⟨by decide, by decide⟩
  have hls := oneLine_of_mem_splitOn h
  rw [dataLines]
  revert hls
  induction text.splitOn lf with
  | nil =>
    intro _
    rfl
  | cons l ls ih =>
    intro hls
    rw [List.forall_mem_cons] at hls
    rw [List.map_cons, List.flatMap_cons, cut_labelled hname hls.1, ih hls.2]
    rfl

theorem lines_block (ls : List Text) (rest : Text) :
    lines (block ls ++ rest) = ls.flatMap cut ++ [] :: lines rest := by
  have hnil : lines ([lf] ++ rest) = [] :: lines rest := lines_append_lf [] rest
  rw [block, List.append_assoc, lines_flatMap, hnil]

theorem trimLf_append (s : Text) : trimLf (s ++ [lf]) = s := by
  rw [trimLf, List.getLast?_concat, if_pos rfl, List.dropLast_concat]

/-- A client that has nothing in its buffers gets one message from an event that fits, behind what
the loose lines of the comment dispatch, and its buffers are empty again. -/
theorem read_block {e : Event V} {text : Text} (hfits : Fits e text) {retry : Option Text}
    (hretry : retryText e.retry = .ok retry) (c : Client) (rest : Text) :
    messages c (lines (block (eventLines e text retry) ++ rest)) =
      messages c (loose e.comment) ++ messageOf (after c (loose e.comment)) e text ::
        messages (idle (after c (loose e.comment)) e) (lines rest) := by
  obtain ⟨hhead, hhead'⟩ := read_headLines hfits hretry c
  rw [lines_block, eventLines, List.flatMap_append, flatMap_cut_dataLines hfits.text,
    messages_append, messages_append, after_append, hhead, hhead']
  generalize after c (loose e.comment) = d
  have hdata : after (settle d e) (dataLines text) =
      { settle d e with data := d.data ++ (text ++ [lf]) } := by
    rw [dataLines, after_data_lines, flatMap_splitOn]
    rfl
  have hne : d.data ++ (text ++ [lf]) ≠ [] :=
    List.append_ne_nil_of_right_ne_nil _
      (List.append_ne_nil_of_right_ne_nil _ (List.cons_ne_nil _ _))
  rw [dataLines, messages_data_lines, List.append_nil, ← dataLines, hdata, messages, dispatched,
    if_pos ⟨rfl, hne⟩, processLine_nil, List.singleton_append, Client.message,
    ← List.append_assoc d.data, trimLf_append]
  rfl

end LocalPost.Openapi.Sse
