import LocalPost.Core.Utf8

/-!
# The event stream format

How a client reads `text/event-stream`: a line ends with LF, CR, or CR and LF; an empty line
dispatches what the `data` lines before it left in the buffer; `event` names that one message, while
`id` and `retry` stay in force behind it. The reading is a fold over the lines, so what a stream of
several parts gives is put together from the parts.
-/

set_option autoImplicit false

namespace LocalPost.Core.EventStream

open LocalPost.Core.Utf8

/-- CR. -/
def cr : CodePoint := .scalar '\r'

/-- LF. -/
def lf : CodePoint := .scalar '\n'

/-- NUL. -/
def nul : CodePoint := .scalar (Char.ofNat 0)

/-- U+003A. -/
def colon : CodePoint := .scalar ':'

/-- U+0020. -/
def space : CodePoint := .scalar ' '

/-- U+FEFF. -/
def bom : CodePoint := .scalar (Char.ofNat 0xFEFF)

/-- The lines of a text, without their ends. `afterCr` says that the code point before was a CR.
What no end follows is no line. -/
def linesFrom : Bool → Text → Text → List Text
  | _, _, [] => []
  | afterCr, current, p :: rest =>
    if p = cr then current :: linesFrom true [] rest
    else if p = lf then
      if afterCr then linesFrom false [] rest else current :: linesFrom false [] rest
    else linesFrom false (current ++ [p]) rest

/-- The lines of a text. -/
def lines (s : Text) : List Text := linesFrom false [] s

/-- What the client holds between two lines. -/
structure Client where
  data : Text
  eventType : Text
  lastEventId : Text
  reconnectionTime : Nat

/-- A dispatched message, with the reconnection time in force. -/
structure Message where
  type : Text
  data : Text
  lastEventId : Text
  reconnectionTime : Nat
  deriving DecidableEq

/-- The client at the start of a stream; its reconnection time is its own choice. -/
def fresh (time : Nat) : Client := ⟨[], [], [], time⟩

/-- The type that a message has without an `event` line. -/
def defaultType : Text := ofChars "message".toList

/-- The type of the next message. -/
def Client.type (c : Client) : Text := if c.eventType = [] then defaultType else c.eventType

/-- A text without the LF at its end. -/
def trimLf (s : Text) : Text := if s.getLast? = some lf then s.dropLast else s

/-- The message that an empty line dispatches. -/
def Client.message (c : Client) : Message :=
  ⟨c.type, trimLf c.data, c.lastEventId, c.reconnectionTime⟩

/-- An ASCII digit. -/
def isDigit : CodePoint → Bool
  | .scalar c => c.isDigit
  | .surrogate _ => false

/-- The scalar values of a text. -/
def chars (s : Text) : List Char :=
  s.filterMap fun p => match p with
    | .scalar c => some c
    | .surrogate _ => none

/-- The number of a text of ASCII digits. -/
def number (s : Text) : Option Nat :=
  if s ≠ [] ∧ s.all isDigit then some (Nat.ofDigitChars 10 (chars s) 0) else none

def dataName : Text := ofChars "data".toList
def eventName : Text := ofChars "event".toList
def idName : Text := ofChars "id".toList
def retryName : Text := ofChars "retry".toList

/-- One field. -/
def field (c : Client) (name value : Text) : Client :=
  if name = eventName then { c with eventType := value }
  else if name = dataName then { c with data := c.data ++ (value ++ [lf]) }
  else if name = idName then if nul ∈ value then c else { c with lastEventId := value }
  else if name = retryName then
    match number value with
    | some n => { c with reconnectionTime := n }
    | none => c
  else c

/-- The name in a line, all of it where it has no colon. -/
def fieldName (line : Text) : Text := line.takeWhile (· ≠ colon)

/-- A value without the space in front. -/
def dropSpace : Text → Text
  | [] => []
  | p :: v => if p = space then v else p :: v

/-- The value in a line. -/
def fieldValue (line : Text) : Text := dropSpace (line.dropWhile (· ≠ colon)).tail

/-- The client after a line. -/
def processLine (c : Client) (line : Text) : Client :=
  if line = [] then { c with data := [], eventType := [] }
  else if line.head? = some colon then c
  else field c (fieldName line) (fieldValue line)

/-- What a line dispatches. -/
def dispatched (c : Client) (line : Text) : List Message :=
  if line = [] ∧ c.data ≠ [] then [c.message] else []

/-- The client after some lines. -/
def after (c : Client) (ls : List Text) : Client := ls.foldl processLine c

/-- What some lines dispatch. -/
def messages : Client → List Text → List Message
  | _, [] => []
  | c, l :: ls => dispatched c l ++ messages (processLine c l) ls

/-- A stream without the byte order mark in front. -/
def stripBom : Text → Text
  | [] => []
  | p :: s => if p = bom then s else p :: s

/-- The messages of a stream of well-formed UTF-8. -/
def parse (time : Nat) (bs : List UInt8) : Option (List Message) :=
  (decode bs).map fun s => messages (fresh time) (lines (stripBom s))

/-! ## Lines -/

/-- A text that one line holds. -/
def OneLine (s : Text) : Prop := cr ∉ s ∧ lf ∉ s

/-- The lines that a client finds in a text with an LF behind it. -/
def cut (l : Text) : List Text := lines (l ++ [lf])

theorem linesFrom_cons_other {p : CodePoint} (hcr : p ≠ cr) (hlf : p ≠ lf) (b : Bool)
    (current rest : Text) : linesFrom b current (p :: rest) = linesFrom false
    (current ++ [p]) rest := by
  rw [linesFrom, if_neg hcr, if_neg hlf]

/-- Behind an LF the reading starts anew. -/
theorem linesFrom_append_lf (s rest : Text) : ∀ (b : Bool) (current : Text),
    linesFrom b current (s ++ lf :: rest) = linesFrom b current (s ++ [lf]) ++ lines rest := by
  have hne : lf ≠ cr := by decide
  induction s with
  | nil =>
    intro b current
    rw [List.nil_append, List.nil_append, linesFrom, linesFrom, if_neg hne, if_neg hne, if_pos rfl,
      if_pos rfl]
    cases b with
    | true => rfl
    | false => rfl
  | cons p s ih =>
    intro b current
    rw [List.cons_append, List.cons_append, linesFrom, linesFrom]
    by_cases hcr : p = cr
    · rw [if_pos hcr, if_pos hcr, ih true []]
      rfl
    · rw [if_neg hcr, if_neg hcr]
      by_cases hlf : p = lf
      · rw [if_pos hlf, if_pos hlf, ih false []]
        cases b with
        | true => rfl
        | false => rfl
      · rw [if_neg hlf, if_neg hlf, ih false _]

theorem lines_append_lf (s rest : Text) : lines (s ++ lf :: rest) = cut s ++ lines rest :=
  linesFrom_append_lf s rest false []

/-- Lines that an LF ends are cut one by one. -/
theorem lines_flatMap (ls : List Text) (rest : Text) :
    lines (ls.flatMap (fun l => l ++ [lf]) ++ rest) = ls.flatMap cut ++ lines rest := by
  induction ls with
  | nil => rfl
  | cons l ls ih =>
    rw [List.flatMap_cons, List.flatMap_cons, List.append_assoc, List.append_assoc,
      List.append_assoc, List.singleton_append, lines_append_lf, ih]

/-- What stands in front of a piece goes to its first line. -/
theorem linesFrom_append_current (a s : Text) : ∀ current : Text,
    linesFrom false (a ++ current) s = (linesFrom false current s).modifyHead (a ++ ·) := by
  induction s with
  | nil =>
    intro current
    rfl
  | cons p s ih =>
    intro current
    rw [linesFrom, linesFrom]
    by_cases hcr : p = cr
    · rw [if_pos hcr, if_pos hcr]
      rfl
    · rw [if_neg hcr, if_neg hcr]
      by_cases hlf : p = lf
      · rw [if_pos hlf, if_pos hlf]
        rfl
      · rw [if_neg hlf, if_neg hlf, List.append_assoc, ih]

/-- A text without line ends goes to the line that is being read. -/
theorem linesFrom_oneLine {l : Text} (h : OneLine l) (s : Text) : ∀ current : Text,
    linesFrom false current (l ++ s) = linesFrom false (current ++ l) s := by
  obtain ⟨hcr, hlf⟩ := h
  induction l with
  | nil =>
    intro current
    rw [List.nil_append, List.append_nil]
  | cons p l ih =>
    intro current
    rw [List.mem_cons, not_or] at hcr hlf
    rw [List.cons_append, linesFrom_cons_other (Ne.symm hcr.1) (Ne.symm hlf.1), ih hcr.2 hlf.2,
      List.append_assoc, List.singleton_append]

theorem cut_oneLine_append {a : Text} (h : OneLine a) (s : Text) :
    cut (a ++ s) = (cut s).modifyHead (a ++ ·) := by
  rw [cut, cut, lines, lines, List.append_assoc, linesFrom_oneLine h, List.nil_append,
    ← linesFrom_append_current a _ [], List.append_nil]

theorem cut_nil : cut [] = [[]] := by
  decide

theorem cut_oneLine {l : Text} (h : OneLine l) : cut l = [l] := by
  have hcut := cut_oneLine_append h []
  rw [List.append_nil, cut_nil] at hcut
  rw [hcut, List.modifyHead_cons, List.append_nil]

/-- A text with a line end behind it has a line. -/
theorem linesFrom_append_lf_ne_nil (s : Text) : ∀ current : Text,
    linesFrom false current (s ++ [lf]) ≠ [] := by
  have hne : lf ≠ cr := by decide
  induction s with
  | nil =>
    intro current
    rw [List.nil_append, linesFrom, if_neg hne, if_pos rfl]
    exact List.cons_ne_nil _ _
  | cons p s ih =>
    intro current
    rw [List.cons_append, linesFrom]
    split
    · exact List.cons_ne_nil _ _
    · split
      · exact List.cons_ne_nil _ _
      · exact ih _

theorem cut_ne_nil (s : Text) : cut s ≠ [] := linesFrom_append_lf_ne_nil s []

/-- No line holds a line end. -/
theorem oneLine_of_mem_linesFrom (s : Text) : ∀ (b : Bool) (current : Text), OneLine current →
    ∀ l ∈ linesFrom b current s, OneLine l := by
  have hnil : OneLine [] := ⟨List.not_mem_nil, List.not_mem_nil⟩
  induction s with
  | nil =>
    intro b current _ l hl
    cases hl
  | cons p s ih =>
    intro b current hcur l hl
    rw [linesFrom] at hl
    split at hl
    -- a CR ends the line, whatever stands before it
    · rcases List.mem_cons.1 hl with rfl | hl
      · exact hcur
      · exact ih true [] hnil l hl
    · rename_i hcr
      split at hl
      -- an LF ends it too, but the one of a CR LF pair has no line of its own
      · split at hl
        · exact ih false [] hnil l hl
        · rcases List.mem_cons.1 hl with rfl | hl
          · exact hcur
          · exact ih false [] hnil l hl
      · rename_i hlf
        -- any other code point extends the line, and is neither of the two
        refine ih false (current ++ [p]) ⟨?_, ?_⟩ l hl
        · rw [List.mem_append, List.mem_singleton]
          exact not_or.2 ⟨hcur.1, Ne.symm hcr⟩
        · rw [List.mem_append, List.mem_singleton]
          exact not_or.2 ⟨hcur.2, Ne.symm hlf⟩

theorem oneLine_of_mem_lines {s l : Text} (h : l ∈ lines s) : OneLine l :=
  oneLine_of_mem_linesFrom s false [] ⟨List.not_mem_nil, List.not_mem_nil⟩ l h

/-- The pieces of a text hold no separator. -/
theorem not_mem_of_mem_splitOn {a : CodePoint} (s : Text) : ∀ l ∈ s.splitOn a, a ∉ l := by
  induction s with
  | nil =>
    intro l hl
    rw [List.splitOn_nil, List.mem_singleton] at hl
    rw [hl]
    exact List.not_mem_nil
  | cons p s ih =>
    intro l hl
    rw [List.splitOn_cons_eq_if_modifyHead] at hl
    split at hl
    · rcases List.mem_cons.1 hl with rfl | hl
      · exact List.not_mem_nil
      · exact ih l hl
    · rename_i hp
      cases hs : s.splitOn a with
      | nil => exact absurd hs (List.splitOn_ne_nil a s)
      | cons first rest =>
        rw [hs] at hl ih
        rcases List.mem_cons.1 hl with rfl | hl
        · rw [List.mem_cons, not_or]
          exact ⟨fun heq => hp (beq_iff_eq.2 heq.symm), ih first List.mem_cons_self⟩
        · exact ih l (List.mem_cons_of_mem _ hl)

/-- A line feed between the lines and one at the end is one behind each of them. -/
theorem intercalate_append_lf {ls : List Text} (h : ls ≠ []) :
    [lf].intercalate ls ++ [lf] = ls.flatMap fun l => l ++ [lf] := by
  induction ls with
  | nil => exact absurd rfl h
  | cons l ls ih =>
    cases ls with
    | nil => rw [List.intercalate_singleton, List.flatMap_cons, List.flatMap_nil, List.append_nil]
    | cons m ls =>
      have hcons : (l :: m :: ls).flatMap (fun l => l ++ [lf]) =
          (l ++ [lf]) ++ (m :: ls).flatMap fun l => l ++ [lf] := List.flatMap_cons
      rw [hcons, ← ih (List.cons_ne_nil m ls), List.intercalate_cons_cons, List.append_assoc,
        List.append_assoc]

/-- A text with an LF behind it is its pieces with an LF behind each. -/
theorem flatMap_splitOn (s : Text) : ((s.splitOn lf).flatMap fun l => l ++ [lf]) = s ++ [lf] := by
  rw [← intercalate_append_lf (List.splitOn_ne_nil lf s), List.intercalate_splitOn]

theorem subset_of_mem_splitOn (s : Text) : ∀ l ∈ s.splitOn lf, ∀ p ∈ l, p ∈ s := by
  intro l hl p hp
  have hmem : p ∈ s ++ [lf] := by
    rw [← flatMap_splitOn]
    exact List.mem_flatMap.2 ⟨l, hl, List.mem_append_left _ hp⟩
  rcases List.mem_append.1 hmem with h | h
  · exact h
  · rw [List.mem_singleton] at h
    exact absurd (h ▸ hp) (not_mem_of_mem_splitOn s l hl)

/-- Between two LFs a text without a CR is one line. -/
theorem oneLine_of_mem_splitOn {s : Text} (h : cr ∉ s) : ∀ l ∈ s.splitOn lf, OneLine l :=
  fun l hl => ⟨fun hm => h (subset_of_mem_splitOn s l hl _ hm), not_mem_of_mem_splitOn s l hl⟩

/-! ## Runs -/

theorem after_cons (c : Client) (l : Text) (ls : List Text) :
    after c (l :: ls) = after (processLine c l) ls := rfl

theorem after_append (c : Client) (a b : List Text) : after c (a ++ b) = after (after c a) b :=
  List.foldl_append

theorem messages_append (c : Client) (a b : List Text) :
    messages c (a ++ b) = messages c a ++ messages (after c a) b := by
  induction a generalizing c with
  | nil => rfl
  | cons l a ih =>
    rw [List.cons_append, messages, messages, ih, List.append_assoc]
    rfl

theorem processLine_nil (c : Client) :
    processLine c [] = ⟨[], [], c.lastEventId, c.reconnectionTime⟩ := rfl

/-- A comment. -/
theorem processLine_colon (c : Client) (s : Text) : processLine c (colon :: s) = c := by
  rw [processLine, if_neg (List.cons_ne_nil _ _)]
  exact if_pos rfl

theorem dispatched_cons (c : Client) (p : CodePoint) (s : Text) : dispatched c (p :: s) = [] :=
  if_neg fun h => List.cons_ne_nil _ _ h.1

/-- A line with a label. -/
def labelled (name value : Text) : Text := name ++ colon :: space :: value

theorem ne_colon_of_mem {name : Text} (h : colon ∉ name) :
    ∀ p ∈ name, decide (p ≠ colon) = true := by
  intro p hp
  apply decide_eq_true
  rintro rfl
  exact h hp

theorem takeWhile_append_colon {name : Text} (h : colon ∉ name) (s : Text) :
    (name ++ colon :: s).takeWhile (· ≠ colon) = name := by
  rw [List.takeWhile_append_of_pos (ne_colon_of_mem h),
    List.takeWhile_cons_of_neg (by simp), List.append_nil]

theorem dropWhile_append_colon {name : Text} (h : colon ∉ name) (s : Text) :
    (name ++ colon :: s).dropWhile (· ≠ colon) = colon :: s := by
  rw [List.dropWhile_append_of_pos (ne_colon_of_mem h),
    List.dropWhile_cons_of_neg (by simp)]

/-- A labelled line is the field it names; the one space in front is no part of the value. -/
theorem processLine_labelled {name : Text} (hne : name ≠ []) (h : colon ∉ name) (c : Client)
    (value : Text) : processLine c (labelled name value) = field c name value := by
  have hhead : (labelled name value).head? ≠ some colon := by
    cases name with
    | nil => exact absurd rfl hne
    | cons p name =>
      intro heq
      exact h (Option.some.inj heq ▸ List.mem_cons_self)
  have hcons : labelled name value ≠ [] := List.append_ne_nil_of_left_ne_nil hne _
  rw [processLine, if_neg hcons, if_neg hhead, fieldName, fieldValue, labelled,
    takeWhile_append_colon h, dropWhile_append_colon h]
  rfl

theorem dispatched_labelled {name : Text} (hne : name ≠ []) (c : Client) (value : Text) :
    dispatched c (labelled name value) = [] :=
  if_neg fun h => List.append_ne_nil_of_left_ne_nil hne _ h.1

/-! ## Data lines -/

theorem field_data (c : Client) (value : Text) :
    field c dataName value = { c with data := c.data ++ (value ++ [lf]) } := by
  rw [field, if_neg (by decide), if_pos rfl]

/-- Every other field leaves the data as they are. -/
theorem field_data_of_ne {name : Text} (h : name ≠ dataName) (c : Client) (value : Text) :
    (field c name value).data = c.data := by
  rw [field, if_neg h]
  split
  · rfl
  · split
    · split
      · rfl
      · rfl
    · split
      · split
        · rfl
        · rfl
      · rfl

/-- Data lines go to the buffer of the client, each with a line feed. -/
theorem after_data_lines (c : Client) (ls : List Text) :
    after c (ls.map (labelled dataName)) =
      { c with data := c.data ++ ls.flatMap fun l => l ++ [lf] } := by
  induction ls generalizing c with
  | nil =>
    rw [List.flatMap_nil, List.append_nil]
    rfl
  | cons l ls ih =>
    rw [List.map_cons, after, List.foldl_cons, processLine_labelled (by decide)
      (by decide), field_data]
    refine (ih _).trans ?_
    rw [List.flatMap_cons, List.append_assoc]

theorem messages_data_lines (c : Client) (ls : List Text) :
    messages c (ls.map (labelled dataName)) = [] := by
  induction ls generalizing c with
  | nil => rfl
  | cons l ls ih =>
    rw [List.map_cons, messages, dispatched_labelled (by decide), ih, List.nil_append]

/-- A line with data, the colon or without. -/
def IsData (line : Text) : Prop := fieldName line = dataName

instance (line : Text) : Decidable (IsData line) := inferInstanceAs (Decidable (_ = _))

/-- A data line adds its value to the buffer and dispatches nothing. -/
theorem processLine_isData {l : Text} (h : IsData l) (c : Client) :
    processLine c l = { c with data := c.data ++ (fieldValue l ++ [lf]) } ∧
      dispatched c l = [] := by
  cases l with
  | nil => exact absurd h (by decide)
  | cons p s =>
    have hhead : (p :: s).head? ≠ some colon := by
      intro heq
      obtain rfl : p = colon := Option.some.inj heq
      have hname : fieldName (colon :: s) = [] := List.takeWhile_cons_of_neg (by simp)
      rw [IsData, hname] at h
      exact absurd h (by decide)
    refine ⟨?_, dispatched_cons c p s⟩
    rw [processLine, if_neg (List.cons_ne_nil _ _), if_neg hhead,
      show fieldName (p :: s) = dataName from h, field_data]

theorem processLine_not_isData {l : Text} (h : ¬ IsData l) {c : Client} (hc : c.data = []) :
    (processLine c l).data = [] ∧ dispatched c l = [] := by
  refine ⟨?_, if_neg fun hd => hd.2 hc⟩
  rw [processLine]
  split
  · rfl
  · split
    · exact hc
    · rw [field_data_of_ne h, hc]

/-- Data in the buffer go out with a message or stay. -/
theorem loud_of_data {c : Client} (hc : c.data ≠ []) (ls : List Text) :
    messages c ls ≠ [] ∨ (after c ls).data ≠ [] := by
  induction ls generalizing c with
  | nil => exact .inr hc
  | cons l ls ih =>
    by_cases hnil : l = []
    · refine .inl ?_
      rw [messages, dispatched, if_pos ⟨hnil, hc⟩]
      exact List.cons_ne_nil _ _
    · have hdata : (processLine c l).data ≠ [] := by
        by_cases hl : IsData l
        · rw [(processLine_isData hl c).1]
          exact List.append_ne_nil_of_left_ne_nil hc _
        · rw [processLine, if_neg hnil]
          split
          · exact hc
          · rw [field_data_of_ne hl]
            exact hc
      rcases ih hdata with h | h
      · refine .inl fun heq => h ?_
        exact (List.append_eq_nil_iff.1 heq).2
      · exact .inr h

/-- A client without data gets none from lines among which there is no data line, and only from
those. -/
theorem silent_iff {c : Client} (hc : c.data = []) (ls : List Text) :
    (messages c ls = [] ∧ (after c ls).data = []) ↔ ∀ l ∈ ls, ¬ IsData l := by
  induction ls generalizing c with
  | nil => exact ⟨fun _ l hl => absurd hl List.not_mem_nil, fun _ => ⟨rfl, hc⟩⟩
  | cons l ls ih =>
    rw [List.forall_mem_cons]
    constructor
    · intro ⟨hmsg, hdata⟩
      have htail : messages (processLine c l) ls = [] := (List.append_eq_nil_iff.1 hmsg).2
      have hl : ¬ IsData l := by
        -- what a data line has put into the buffer is dispatched later, or is still there
        intro hl
        have hbuffer : (processLine c l).data ≠ [] := by
          rw [(processLine_isData hl c).1]
          exact List.append_ne_nil_of_right_ne_nil _
            (List.append_ne_nil_of_right_ne_nil _ (by simp))
        rcases loud_of_data hbuffer ls with h | h
        · exact h htail
        · exact h hdata
      exact ⟨hl, (ih (processLine_not_isData hl hc).1).1 ⟨htail, hdata⟩⟩
    -- a line without data leaves the buffer empty and dispatches nothing
    · intro ⟨hl, hls⟩
      obtain ⟨hdata, hmsg⟩ := processLine_not_isData hl hc
      obtain ⟨hmsgs, hafter⟩ := (ih hdata).2 hls
      refine ⟨?_, hafter⟩
      rw [messages, hmsg, hmsgs]
      rfl

/-! ## What a client can be told -/

/-- No stream puts a line end into a name or an id, a CR into the data, or a NUL into an id. -/
structure Client.Clean (c : Client) : Prop where
  data : cr ∉ c.data
  eventType : OneLine c.eventType
  lastEventId : OneLine c.lastEventId
  noNul : nul ∉ c.lastEventId

/-- The same of a message, whose type is never empty. -/
structure Message.Clean (m : Message) : Prop where
  type_ne_nil : m.type ≠ []
  type : OneLine m.type
  data : cr ∉ m.data
  lastEventId : OneLine m.lastEventId
  noNul : nul ∉ m.lastEventId

theorem oneLine_nil : OneLine [] := ⟨List.not_mem_nil, List.not_mem_nil⟩

theorem OneLine.of_subset {s t : Text} (ht : OneLine t) (h : s ⊆ t) : OneLine s :=
  ⟨fun hm => ht.1 (h hm), fun hm => ht.2 (h hm)⟩

theorem clean_fresh (time : Nat) : (fresh time).Clean :=
  ⟨List.not_mem_nil, oneLine_nil, oneLine_nil, List.not_mem_nil⟩

/-- A field of one line keeps the client clean. -/
theorem field_clean {c : Client} (hc : c.Clean) (name : Text) {value : Text} (hv : OneLine value) :
    (field c name value).Clean := by
  have hlf : cr ∉ [lf] := by decide
  rw [field]
  split
  · exact { hc with eventType := hv }
  · split
    · refine { hc with data := ?_ }
      rw [List.mem_append, List.mem_append, not_or, not_or]
      exact ⟨hc.data, hv.1, hlf⟩
    · split
      · split
        · exact hc
        · rename_i hnul
          exact { hc with lastEventId := hv, noNul := hnul }
      · split
        · split
          · exact { hc with }
          · exact hc
        · exact hc

theorem dropSpace_subset (s : Text) : dropSpace s ⊆ s := by
  cases s with
  | nil => exact List.Subset.refl _
  | cons p v =>
    rw [dropSpace]
    split
    · exact List.subset_cons_self p v
    · exact List.Subset.refl _

theorem fieldValue_subset (line : Text) : fieldValue line ⊆ line :=
  List.Subset.trans (dropSpace_subset _)
    (List.Subset.trans (List.tail_sublist _).subset (List.dropWhile_suffix _).subset)

theorem processLine_clean {c : Client} (hc : c.Clean) {l : Text} (hl : OneLine l) :
    (processLine c l).Clean := by
  rw [processLine]
  split
  · exact ⟨List.not_mem_nil, oneLine_nil, hc.lastEventId, hc.noNul⟩
  · split
    · exact hc
    · exact field_clean hc _ (hl.of_subset (fieldValue_subset l))

/-- The message of a clean client is clean. -/
theorem message_clean {c : Client} (hc : c.Clean) : c.message.Clean := by
  have hdata : cr ∉ trimLf c.data := by
    rw [trimLf]
    split
    · exact fun hm => hc.data (List.dropLast_subset _ hm)
    · exact hc.data
  have htype : c.type ≠ [] ∧ OneLine c.type := by
    rw [Client.type]
    split
    · exact ⟨by decide, by decide, by decide⟩
    · rename_i hne
      exact ⟨hne, hc.eventType⟩
  exact ⟨htype.1, htype.2, hdata, hc.lastEventId, hc.noNul⟩

/-- All messages of a clean client are clean, if its lines hold no line ends. -/
theorem messages_clean {c : Client} (hc : c.Clean) {ls : List Text} (hls : ∀ l ∈ ls, OneLine l) :
    ∀ m ∈ messages c ls, m.Clean := by
  induction ls generalizing c with
  | nil =>
    intro m hm
    cases hm
  | cons l ls ih =>
    intro m hm
    rw [List.forall_mem_cons] at hls
    rw [messages, List.mem_append] at hm
    rcases hm with hm | hm
    · rw [dispatched] at hm
      split at hm
      · rw [List.mem_singleton] at hm
        subst hm
        exact message_clean hc
      · cases hm
    · exact ih (processLine_clean hc hls.1) hls.2 m hm

theorem messages_lines_clean (time : Nat) (s : Text) :
    ∀ m ∈ messages (fresh time) (lines s), m.Clean :=
  messages_clean (clean_fresh time) fun _ hl => oneLine_of_mem_lines hl

end LocalPost.Core.EventStream
