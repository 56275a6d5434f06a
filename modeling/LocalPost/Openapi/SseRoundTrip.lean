import LocalPost.Openapi.SseLines

/-!
# Reading back what was encoded

The encoder cuts texts at LF alone, and writes names, ids and delays as they come. A client gives
back the events that were encoded exactly when no field holds what ends or voids it on the way: the
condition is exact for one event and for every list of events, where a client carries the last id
and the reconnection time from one event to the next.
-/

set_option autoImplicit false

namespace LocalPost.Openapi.Sse

open LocalPost.Core.Utf8 LocalPost.Core.EventStream
open LocalPost.Http

variable {T V : Type}

/-- A message that reports an event: the data, the name, the id and the delay are those given.
Without a name it has the default type; without an id or a delay the client keeps what it has. -/
structure Reports (c : Client) (e : Event V) (text : Text) (m : Message) : Prop where
  data : m.data = text
  event : m.type = e.event.getD defaultType
  id : m.lastEventId = e.id.getD c.lastEventId
  retry : (m.reconnectionTime : Int) = e.retry.getD c.reconnectionTime

/-- Messages that report the items one by one, in order. -/
inductive ReportsAll (adapters : AdapterRegistry T V) : Client → List (Item V) →
    List Message → Prop where
  | nil (c : Client) : ReportsAll adapters c [] []
  | cons {c : Client} {item : Item V} {items : List (Item V)} {text : Text} {m : Message}
      {ms : List Message} (htext : payloadText adapters item.asEvent.data = .ok text)
      (hm : Reports c item.asEvent text m)
      (hms : ReportsAll adapters ⟨[], [], m.lastEventId, m.reconnectionTime⟩ items ms) :
      ReportsAll adapters c (item :: items) (m :: ms)

/-- `encode_event` reads back: a client finds one message, which reports the event. -/
def EventReadBack (adapters : AdapterRegistry T V) (time : Nat) (item : Item V) : Prop :=
  ∃ chunk text m, encodeEvent adapters item = .ok chunk ∧
    payloadText adapters item.asEvent.data = .ok text ∧ parse time chunk = some [m] ∧
      Reports (fresh time) item.asEvent text m

/-- `iter_events` reads back: what it yields for the items reports them and nothing else. -/
def StreamReadBack (adapters : AdapterRegistry T V) (time : Nat) (items : List (Item V)) : Prop :=
  ∀ source : Source V, source.unwrap = .iterable items →
    ∃ chunks ms, iterEvents adapters source = (chunks, none) ∧
      parse time chunks.flatten = some ms ∧ ReportsAll adapters (fresh time) items ms

/-! ## The condition -/

/-- The loose lines of a comment do nothing that shows: they hold no data, and leave alone what the
event does not set itself. -/
structure Harmless (c : Client) (e : Event V) : Prop where
  data : ∀ l ∈ loose e.comment, ¬ IsData l
  event : e.event = none → (after c (loose e.comment)).type = defaultType
  id : e.id = none → (after c (loose e.comment)).lastEventId = c.lastEventId
  retry : e.retry = none → (after c (loose e.comment)).reconnectionTime = c.reconnectionTime

/-- An event that reaches a client as it was given. -/
structure Carried (adapters : AdapterRegistry T V) (c : Client) (e : Event V) : Prop where
  text : ∃ text, payloadText adapters e.data = .ok text ∧ Scalars text ∧ cr ∉ text
  event : ∀ n, e.event = some n → Scalars n ∧ n ≠ [] ∧ OneLine n
  id : ∀ i, e.id = some i → Scalars i ∧ OneLine i ∧ nul ∉ i
  retry : ∀ n, e.retry = some n → 0 ≤ n ∧ (Nat.toDigits 10 n.natAbs).length ≤ intMaxStrDigits
  comment : ∀ t, e.comment = some t → Scalars t
  harmless : Harmless c e

/-- The client behind an event that reached it. -/
def told (c : Client) (e : Event V) : Client :=
  ⟨[], [], e.id.getD c.lastEventId, (e.retry.map Int.toNat).getD c.reconnectionTime⟩

/-- Every event of a list reaches the client that the events before it left. -/
def CarriedAll (adapters : AdapterRegistry T V) : Client → List (Item V) → Prop
  | _, [] => True
  | c, item :: items =>
    Carried adapters c item.asEvent ∧ CarriedAll adapters (told c item.asEvent) items

/-- A comment without a CR has no loose lines. -/
theorem loose_eq_nil {comment : Option Text} (h : ∀ t, comment = some t → cr ∉ t) :
    loose comment = [] := by
  cases comment with
  | none => rfl
  | some t =>
    rw [loose, List.flatMap_eq_nil_iff]
    intro l hl
    rw [cut_oneLine (oneLine_of_mem_splitOn (h t rfl) l hl)]
    rfl

/-- So it does no harm, whatever the event. -/
theorem harmless_of_no_cr {c : Client} (hc : c.eventType = []) {e : Event V}
    (h : ∀ t, e.comment = some t → cr ∉ t) : Harmless c e := by
  have hloose := loose_eq_nil h
  constructor
  · rw [hloose]
    intro l hl
    cases hl
  · intro _
    rw [hloose]
    exact if_pos hc
  · intro _
    rw [hloose]
    rfl
  · intro _
    rw [hloose]
    rfl

/-! ## What is written for a list -/

/-- The text of a list of items, none of which holds a surrogate. -/
inductive Written (adapters : AdapterRegistry T V) : List (Item V) → Text → Prop where
  | nil : Written adapters [] []
  | cons {item : Item V} {items : List (Item V)} {text : Text} {retry : Option Text} {s : Text}
      (hprints : Prints adapters item text retry)
      (hscalars : Scalars (block (eventLines item.asEvent text retry)))
      (hrest : Written adapters items s) :
      Written adapters (item :: items) (block (eventLines item.asEvent text retry) ++ s)

theorem encode_of_scalars {s : Text} (h : Scalars s) : ∃ bs, encode s = some bs := by
  obtain ⟨cs, rfl⟩ := h
  exact ⟨_, encode_ofChars cs⟩

/-- What was encoded without an error is written. -/
theorem written_of_encodeEach {adapters : AdapterRegistry T V} {items : List (Item V)}
    {chunks : List Bytes} (h : encodeEach adapters items = (chunks, none)) :
    ∃ s, Written adapters items s ∧ encode s = some chunks.flatten := by
  rw [encodeEach_eq_iff] at h
  induction h with
  | nil => exact ⟨[], .nil, rfl⟩
  | cons hchunk _ ih =>
    obtain ⟨text, retry, hprints, henc⟩ := encodeEvent_eq_ok_iff.1 hchunk
    obtain ⟨s, hs, hencs⟩ := ih
    exact ⟨_, .cons hprints (scalars_of_encode henc) hs, encode_append henc hencs⟩

/-- What is written is encoded without an error. -/
theorem encodeEach_of_written {adapters : AdapterRegistry T V} {items : List (Item V)} {s : Text}
    (h : Written adapters items s) :
    ∃ chunks, encodeEach adapters items = (chunks, none) ∧ encode s = some chunks.flatten := by
  induction h with
  | nil => exact ⟨[], rfl, rfl⟩
  | cons hprints hscalars _ ih =>
    obtain ⟨chunk, hchunk⟩ := encode_of_scalars hscalars
    obtain ⟨chunks, hchunks, henc⟩ := ih
    refine ⟨chunk :: chunks, ?_, encode_append hchunk henc⟩
    rw [encodeEach_eq_iff] at hchunks ⊢
    exact .cons (encodeEvent_eq_ok_iff.2 ⟨_, _, hprints, hchunk⟩) hchunks

/-- A text that begins with a label does not begin with a byte order mark. -/
theorem stripBom_append {label : List Char} (h : stripBom (ofChars label) = ofChars label)
    (hne : ofChars label ≠ []) (s : Text) : stripBom (ofChars label ++ s) = ofChars label ++ s := by
  cases hl : ofChars label with
  | nil => exact absurd hl hne
  | cons p r =>
    rw [hl, stripBom] at h
    split at h
    · exact absurd h.symm (List.cons_ne_self p r)
    · rename_i hp
      exact if_neg hp

/-- No line of an event begins with a byte order mark. -/
theorem stripBom_eventLine {e : Event V} {text : Text} {retry : Option Text} :
    ∀ l ∈ eventLines e text retry, ∀ s, stripBom (l ++ s) = l ++ s := by
  -- a line starts with its label, which is no byte order mark
  have hfield : ∀ {label : String} {value : Option Text},
      stripBom (ofChars label.toList) = ofChars label.toList → ofChars label.toList ≠ [] →
        ∀ l ∈ fieldLine label value, ∀ s, stripBom (l ++ s) = l ++ s := by
    intro label value h hne l hl s
    cases value with
    | none => cases hl
    | some v =>
      rw [fieldLine, List.mem_singleton] at hl
      rw [hl, List.append_assoc]
      exact stripBom_append h hne _
  intro l hl s
  rw [eventLines, headLines] at hl
  simp only [List.mem_append] at hl
  rcases hl with (((hl | hl) | hl) | hl) | hl
  -- a comment line starts with a colon
  · cases hc : e.comment with
    | none =>
      rw [hc] at hl
      cases hl
    | some t =>
      rw [hc] at hl
      obtain ⟨line, -, rfl⟩ := List.mem_map.1 hl
      rw [List.append_assoc]
      exact stripBom_append (by decide) (by decide) _
  · exact hfield (by decide) (by decide) l hl s
  · exact hfield (by decide) (by decide) l hl s
  · exact hfield (by decide) (by decide) l hl s
  · obtain ⟨line, -, rfl⟩ := List.mem_map.1 hl
    rw [labelled, List.append_assoc]
    exact stripBom_append (by decide) (by decide) _

/-- What is written does not begin with a byte order mark. -/
theorem stripBom_written {adapters : AdapterRegistry T V} {items : List (Item V)} {s : Text}
    (h : Written adapters items s) : stripBom s = s := by
  cases h with
  | nil => rfl
  | @cons item items text retry s hprints hscalars hrest =>
    cases hlines : eventLines item.asEvent text retry with
    | nil => exact absurd hlines (List.append_ne_nil_of_right_ne_nil _ (dataLines_ne_nil text))
    | cons l ls =>
      have hl := @stripBom_eventLine V item.asEvent text retry l (hlines ▸ List.mem_cons_self)
      rw [block, List.flatMap_cons, List.append_assoc, List.append_assoc, List.append_assoc]
      exact hl _

/-- Reading back is a matter of the written text alone. -/
theorem streamReadBack_iff_written {adapters : AdapterRegistry T V} {time : Nat}
    {items : List (Item V)} : StreamReadBack adapters time items ↔ ∃ s, Written adapters items s ∧
      ReportsAll adapters (fresh time) items (messages (fresh time) (lines s)) := by
  have hparse : ∀ {s : Text} {bs : Bytes}, Written adapters items s → encode s = some bs →
      parse time bs = some (messages (fresh time) (lines s)) := by
    intro s bs hs henc
    rw [parse, decode_of_encode henc, Option.map_some, stripBom_written hs]
  constructor
  · intro h
    obtain ⟨chunks, ms, hiter, hms, hreports⟩ := h (.iterable items) rfl
    obtain ⟨s, hs, henc⟩ := written_of_encodeEach hiter
    rw [hparse hs henc] at hms
    cases hms
    exact ⟨s, hs, hreports⟩
  · rintro ⟨s, hs, hreports⟩ source hsource
    obtain ⟨chunks, hchunks, henc⟩ := encodeEach_of_written hs
    refine ⟨chunks, _, ?_, hparse hs henc, hreports⟩
    rw [iterEvents, hsource]
    exact hchunks

/-! ## What is read from a list -/

theorem ReportsAll.length_eq {adapters : AdapterRegistry T V} {c : Client} {items : List (Item V)}
    {ms : List Message} (h : ReportsAll adapters c items ms) : ms.length = items.length := by
  induction h with
  | nil => rfl
  | cons _ _ _ ih => rw [List.length_cons, List.length_cons, ih]

/-- What a client can be told at all fits. -/
theorem fits_of_reports {c : Client} {e : Event V} {text : Text} {m : Message} (hclean : m.Clean)
    (h : Reports c e text m) : Fits e text := by
  constructor
  · rw [← h.data]
    exact hclean.data
  · intro n hn
    have htype := h.event
    rw [hn, Option.getD_some] at htype
    rw [← htype]
    exact ⟨hclean.type_ne_nil, hclean.type⟩
  · intro i hi
    have hid := h.id
    rw [hi, Option.getD_some] at hid
    rw [← hid]
    exact ⟨hclean.lastEventId, hclean.noNul⟩
  · intro n hn
    have hretry := h.retry
    rw [hn, Option.getD_some] at hretry
    omega

/-- Every item fits. -/
def FitsAll (adapters : AdapterRegistry T V) (items : List (Item V)) : Prop :=
  ∀ item ∈ items, ∀ text, payloadText adapters item.asEvent.data = .ok text → Fits item.asEvent text

/-- What is reported without line ends in it fits the lines of its events. -/
theorem fitsAll_of_reportsAll {adapters : AdapterRegistry T V} {c : Client} {items : List (Item V)}
    {ms : List Message} (h : ReportsAll adapters c items ms) (hclean : ∀ m ∈ ms, m.Clean) :
    FitsAll adapters items := by
  induction h with
  | nil =>
    intro item hitem
    cases hitem
  | cons htext hm _ ih =>
    rw [List.forall_mem_cons] at hclean
    intro item hitem text' htext'
    rcases List.mem_cons.1 hitem with rfl | hitem
    · rw [htext] at htext'
      cases htext'
      exact fits_of_reports hclean.1 hm
    · exact ih hclean.2 item hitem text' htext'

/-- Each item that fits gives at least its own message. -/
theorem length_le_messages {adapters : AdapterRegistry T V} {items : List (Item V)} {s : Text}
    (h : Written adapters items s) (hfits : FitsAll adapters items) (c : Client) :
    items.length ≤ (messages c (lines s)).length := by
  induction h generalizing c with
  | nil => exact Nat.zero_le _
  | @cons item items text retry s hprints _ _ ih =>
    obtain ⟨hitem, hitems⟩ := List.forall_mem_cons.1 hfits
    rw [read_block (hitem text hprints.text) hprints.retry, List.length_append, List.length_cons,
      List.length_cons]
    have hrest := ih hitems (idle (after c (loose item.asEvent.comment)) item.asEvent)
    omega

/-- The message of an event that fits reports it, with none in front, exactly where the comment does
no harm. -/
theorem reports_iff_harmless {c : Client} (hc : c.data = []) {e : Event V} {text : Text}
    (hfits : Fits e text) : (messages c (loose e.comment) = [] ∧
      Reports c e text (messageOf (after c (loose e.comment)) e text)) ↔ Harmless c e := by
  have hsilent := silent_iff hc (loose e.comment)
  constructor
  -- A field that the event leaves out is reported as the comment has left it.
  · rintro ⟨hmsg, hreports⟩
    have hdata : (after c (loose e.comment)).data = [] := List.append_left_eq_self.1 hreports.data
    refine ⟨hsilent.1 ⟨hmsg, hdata⟩, ?_, ?_, ?_⟩
    · intro hnone
      have htype := hreports.event
      rw [hnone, messageOf, Client.type, settle, hnone] at htype
      exact htype
    · intro hnone
      have hid := hreports.id
      rw [hnone, messageOf, settle, hnone] at hid
      exact hid
    · intro hnone
      have hretry := hreports.retry
      rw [hnone, messageOf, settle, hnone] at hretry
      exact Int.ofNat.inj hretry
  · intro h
    obtain ⟨hmsg, hdata⟩ := hsilent.2 h.data
    refine ⟨hmsg, ⟨?_, ?_, ?_, ?_⟩⟩
    · rw [messageOf, hdata, List.nil_append]
    · cases hn : e.event with
      | none =>
        rw [messageOf, Client.type, settle, hn]
        exact h.event hn
      | some n =>
        rw [messageOf, Client.type, settle, hn]
        exact if_neg (hfits.event n hn).1
    · cases hi : e.id with
      | none =>
        rw [messageOf, settle, hi]
        exact h.id hi
      | some i =>
        rw [messageOf, settle, hi]
        rfl
    · cases hn : e.retry with
      | none =>
        rw [messageOf, settle, hn]
        exact congrArg Int.ofNat (h.retry hn)
      | some n =>
        rw [messageOf, settle, hn]
        exact Int.toNat_of_nonneg (hfits.retry n hn)

/-- Behind an event whose comment does no harm a client holds what it was told. -/
theorem idle_eq_told {c : Client} {e : Event V} (h : Harmless c e) :
    idle (after c (loose e.comment)) e = told c e := by
  have hid : (settle (after c (loose e.comment)) e).lastEventId = e.id.getD c.lastEventId := by
    rw [settle]
    cases hi : e.id with
    | none => exact h.id hi
    | some i => rfl
  have hretry : (settle (after c (loose e.comment)) e).reconnectionTime =
      (e.retry.map Int.toNat).getD c.reconnectionTime := by
    rw [settle]
    cases hn : e.retry with
    | none => exact h.retry hn
    | some n => rfl
  rw [idle, told, hid, hretry]

/-- No comment of a list does harm. -/
def HarmlessAll : Client → List (Item V) → Prop
  | _, [] => True
  | c, item :: items => Harmless c item.asEvent ∧ HarmlessAll (told c item.asEvent) items

/-- The induction is on the items: a message too many in front of one would be one too many in all,
since each of those behind gives its own. -/
theorem reportsAll_iff_harmlessAll {adapters : AdapterRegistry T V} {items : List (Item V)}
    {s : Text}
    (h : Written adapters items s) (hfits : FitsAll adapters items) {c : Client}
    (hc : c.data = []) :
    ReportsAll adapters c items (messages c (lines s)) ↔ HarmlessAll c items := by
  induction h generalizing c with
  | nil => exact ⟨fun _ => trivial, fun _ => .nil c⟩
  | @cons item items text retry s hprints _ hrest ih =>
    obtain ⟨hitem, hitems⟩ := List.forall_mem_cons.1 hfits
    have hfit : Fits item.asEvent text := hitem text hprints.text
    rw [read_block hfit hprints.retry, HarmlessAll, ← reports_iff_harmless hc hfit]
    constructor
    · intro hall
      -- no block can report less than its event, so the lines before it report nothing
      have hlen := hall.length_eq
      have hmore :=
        length_le_messages hrest hitems (idle (after c (loose item.asEvent.comment)) item.asEvent)
      rw [List.length_append, List.length_cons, List.length_cons] at hlen
      have hfront : messages c (loose item.asEvent.comment) = [] :=
        List.eq_nil_of_length_eq_zero (by omega)
      rw [hfront, List.nil_append] at hall
      cases hall with
      | cons htext hm hms =>
        rw [hprints.text] at htext
        cases htext
        have hharmless := (reports_iff_harmless hc hfit).1 ⟨hfront, hm⟩
        rw [← idle_eq_told hharmless]
        exact ⟨⟨hfront, hm⟩, (ih hitems rfl).1 hms⟩
    -- harmless items leave the client as it is told to be, so the rest reads on from there
    · rintro ⟨⟨hfront, hm⟩, hrestHarmless⟩
      have hharmless := (reports_iff_harmless hc hfit).1 ⟨hfront, hm⟩
      rw [← idle_eq_told hharmless] at hrestHarmless
      rw [hfront, List.nil_append]
      exact .cons hprints.text hm ((ih hitems rfl).2 hrestHarmless)

/-! ## The exact condition -/

/-- A reconnection time is printed exactly if it has not too many digits. -/
theorem retryText_ok_iff {r : Option Int} (hpos : ∀ n, r = some n → 0 ≤ n) :
    (∃ retry, retryText r = .ok retry) ↔
      ∀ n, r = some n → (Nat.toDigits 10 n.natAbs).length ≤ intMaxStrDigits := by
  cases r with
  | none => exact ⟨fun _ n hn => (by cases hn), fun _ => ⟨none, rfl⟩⟩
  | some n =>
    rw [retryText, formatInt, if_neg (show ¬ n < 0 by have := hpos n rfl; omega)]
    split
    · rename_i hlong
      constructor
      · rintro ⟨_, h⟩
        cases h
      · intro h
        exact absurd (h n rfl) (by omega)
    · rename_i hshort
      refine ⟨fun _ m hm => ?_, fun _ => ⟨_, rfl⟩⟩
      cases hm
      omega

/-- The condition on an event is that it is written, fits, and has a harmless comment. -/
theorem carried_iff {adapters : AdapterRegistry T V} {c : Client} {item : Item V} :
    Carried adapters c item.asEvent ↔ (∃ text retry, Prints adapters item text retry ∧
      Scalars (block (eventLines item.asEvent text retry)) ∧ Fits item.asEvent text) ∧
        Harmless c item.asEvent := by
  constructor
  · intro h
    obtain ⟨text, htext, hscalars, hcr⟩ := h.text
    obtain ⟨retry, hretry⟩ := (retryText_ok_iff fun n hn => (h.retry n hn).1).2
      fun n hn => (h.retry n hn).2
    refine ⟨⟨text, retry, ⟨htext, hretry⟩, ?_, ?_⟩, h.harmless⟩
    · exact (scalars_eventLines hretry).2
        ⟨h.comment, fun n hn => (h.event n hn).1, fun i hi => (h.id i hi).1, hscalars⟩
    · exact ⟨hcr, fun n hn => (h.event n hn).2, fun i hi => (h.id i hi).2,
        fun n hn => (h.retry n hn).1⟩
  · rintro ⟨⟨text, retry, hprints, hscalars, hfits⟩, hharmless⟩
    obtain ⟨hcomment, hevent, hid, htext⟩ := (scalars_eventLines hprints.retry).1 hscalars
    have hdigits := (retryText_ok_iff hfits.retry).1 ⟨retry, hprints.retry⟩
    exact ⟨⟨text, hprints.text, htext, hfits.text⟩, fun n hn => ⟨hevent n hn, hfits.event n hn⟩,
      fun i hi => ⟨hid i hi, hfits.id i hi⟩, fun n hn => ⟨hfits.retry n hn, hdigits n hn⟩, hcomment,
      hharmless⟩

/-- All items are carried exactly if they can be written, fit their lines and have harmless
comments. -/
theorem carriedAll_iff {adapters : AdapterRegistry T V} {c : Client} {items : List (Item V)} :
    CarriedAll adapters c items ↔
      (∃ s, Written adapters items s) ∧ FitsAll adapters items ∧ HarmlessAll c items := by
  induction items generalizing c with
  | nil =>
    refine ⟨fun _ => ⟨⟨[], .nil⟩, fun _ h => ?_, trivial⟩, fun _ => trivial⟩
    cases h
  | cons item items ih =>
    rw [CarriedAll, ih, carried_iff, HarmlessAll]
    constructor
    · rintro ⟨⟨⟨text, retry, hprints, hscalars, hfits⟩, hharmless⟩, ⟨s, hs⟩, hfitsAll, hrest⟩
      refine ⟨⟨_, .cons hprints hscalars hs⟩, ?_, hharmless, hrest⟩
      refine List.forall_mem_cons.2 ⟨fun text' htext' => ?_, hfitsAll⟩
      rw [hprints.text] at htext'
      cases htext'
      exact hfits
    · rintro ⟨⟨_, hs⟩, hfitsAll, hharmless, hrest⟩
      obtain ⟨hfits, hfitsRest⟩ := List.forall_mem_cons.1 hfitsAll
      cases hs with
      | cons hprints hscalars hs =>
        exact ⟨⟨⟨_, _, hprints, hscalars, hfits _ hprints.text⟩, hharmless⟩,
          ⟨_, hs⟩, hfitsRest, hrest⟩

/-- A stream is read back exactly if all its items are carried. -/
theorem streamReadBack_iff_carriedAll (adapters : AdapterRegistry T V) (time : Nat)
    (items : List (Item V)) :
    StreamReadBack adapters time items ↔ CarriedAll adapters (fresh time) items := by
  rw [streamReadBack_iff_written, carriedAll_iff]
  constructor
  · rintro ⟨s, hs, hreports⟩
    have hfits := fitsAll_of_reportsAll hreports (messages_lines_clean time s)
    exact ⟨⟨s, hs⟩, hfits, (reportsAll_iff_harmlessAll hs hfits rfl).1 hreports⟩
  · rintro ⟨⟨s, hs⟩, hfits, hharmless⟩
    exact ⟨s, hs, (reportsAll_iff_harmlessAll hs hfits rfl).2 hharmless⟩

/-- One event is a list of one. -/
theorem eventReadBack_iff_stream {adapters : AdapterRegistry T V} {time : Nat} {item : Item V} :
    EventReadBack adapters time item ↔ StreamReadBack adapters time [item] := by
  constructor
  · rintro ⟨chunk, text, m, hchunk, htext, hparse, hm⟩ source hsource
    refine ⟨[chunk], [m], ?_, ?_, .cons htext hm (.nil _)⟩
    · rw [iterEvents, hsource]
      exact encodeEach_eq_iff.2 (.cons hchunk .nil)
    · rw [List.flatten_singleton]
      exact hparse
  · intro h
    obtain ⟨chunks, ms, hiter, hparse, hreports⟩ := h (.iterable [item]) rfl
    cases encodeEach_eq_iff.1 hiter with
    | cons hchunk hnil =>
      cases hnil
      rw [List.flatten_singleton] at hparse
      cases hreports with
      | cons htext hm hms =>
        cases hms
        exact ⟨_, _, _, hchunk, htext, hparse, hm⟩

/-- A client gives back an event, and a list of events, exactly where each one reaches it as it was
given. -/
theorem read_back_iff_carried (adapters : AdapterRegistry T V) (time : Nat) :
    (∀ item, EventReadBack adapters time item ↔ Carried adapters (fresh time) item.asEvent) ∧
      ∀ items, StreamReadBack adapters time items ↔ CarriedAll adapters (fresh time) items := by
  refine ⟨fun item => ?_, streamReadBack_iff_carriedAll adapters time⟩
  rw [eventReadBack_iff_stream, streamReadBack_iff_carriedAll]
  exact and_iff_left trivial

/-- A registry with one adapter, which writes nothing. -/
def plainRegistry : AdapterRegistry Unit Unit where
  adapters := [⟨fun _ => true, fun _ => .ok []⟩]
  type := fun _ => ()
  nonempty := List.cons_ne_nil _ _

/-- A payload of two lines with a CR between them. -/
def crPayload : Item Unit := .bare (.str (ofChars ['a', '\r', 'b']))

/-- An event whose name holds a whole event. -/
def forgedName : Event Unit where
  data := .str (ofChars ['x'])
  event := some (ofChars "n\ndata: y\n".toList)
  id := none
  retry := none
  comment := none

/-- An event that is printed is read back as one message. -/
theorem parse_encodeEvent {adapters : AdapterRegistry T V} {item : Item V} {text : Text}
    {retry : Option Text} (hprints : Prints adapters item text retry)
    (hscalars : Scalars (block (eventLines item.asEvent text retry))) (time : Nat) :
    ∃ chunk, encodeEvent adapters item = .ok chunk ∧
      parse time chunk = some (messages (fresh time)
        (lines (block (eventLines item.asEvent text retry)))) := by
  obtain ⟨chunk, hchunk⟩ := encode_of_scalars hscalars
  refine ⟨chunk, encodeEvent_eq_ok_iff.2 ⟨text, retry, hprints, hchunk⟩, ?_⟩
  have hstrip := stripBom_written (.cons hprints hscalars .nil)
  rw [List.append_nil] at hstrip
  rw [parse, decode_of_encode hchunk, Option.map_some, hstrip]

/-- The text behind the CR is lost; a name with an LF in it gives a client two messages for one
event. -/
theorem cr_lost_and_event_forged :
    (∃ chunk, encodeEvent plainRegistry crPayload = .ok chunk ∧
      parse 0 chunk = some [⟨defaultType, ofChars ['a'], [], 0⟩]) ∧
    ¬ EventReadBack plainRegistry 0 crPayload ∧
    (∃ chunk, encodeEvent plainRegistry (.event forgedName) = .ok chunk ∧
      parse 0 chunk = some [⟨ofChars ['n'], ofChars ['y'], [], 0⟩,
        ⟨defaultType, ofChars ['x'], [], 0⟩]) := by
  have hcr : Prints plainRegistry crPayload (ofChars ['a', '\r', 'b']) none := ⟨rfl, rfl⟩
  have hforged : Prints plainRegistry (.event forgedName) (ofChars ['x']) none := ⟨rfl, rfl⟩
  -- both items are encoded, and what the client reads is computed from their lines
  obtain ⟨chunk, hchunk, hparse⟩ := parse_encodeEvent hcr
    ((scalars_eventLines rfl).2
      ⟨fun _ h => (by cases h), fun _ h => (by cases h), fun _ h => (by cases h),
      scalars_ofChars _⟩) 0
  obtain ⟨chunk', hchunk', hparse'⟩ := parse_encodeEvent hforged
    ((scalars_eventLines rfl).2 ⟨fun _ h => (by cases h),
      fun _ h => (by cases h; exact scalars_ofChars _), fun _ h =>
        (by cases h), scalars_ofChars _⟩) 0
  have hlost : messages (fresh 0) (lines (block (eventLines crPayload.asEvent
      (ofChars ['a', '\r', 'b']) none))) = [⟨defaultType, ofChars ['a'], [], 0⟩] := by
    decide
  have hmore : messages (fresh 0) (lines (block (eventLines (Item.event forgedName).asEvent
      (ofChars ['x']) none))) = [⟨ofChars ['n'], ofChars ['y'], [], 0⟩,
        ⟨defaultType, ofChars ['x'], [], 0⟩] := by
    decide
  rw [hlost] at hparse
  rw [hmore] at hparse'
  refine ⟨⟨chunk, hchunk, hparse⟩, ?_, ⟨chunk', hchunk', hparse'⟩⟩
  -- the text of the first one would have its carriage return
  rintro ⟨chunk₂, text, m, hchunk₂, htext, hparse₂, hm⟩
  cases hchunk.symm.trans hchunk₂
  cases hparse.symm.trans hparse₂
  cases htext
  exact absurd hm.data (by decide)

end LocalPost.Openapi.Sse
