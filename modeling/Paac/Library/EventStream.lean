import Paac.Library.Tokens

set_option autoImplicit false

/-!
# Server-sent events

A stream of events is text in lines, each ended by a line feed, a carriage return, or both in that
order. A line `data: text` adds a line to the data of the event under construction, an empty line
ends the event, and every other line (a comment, or a field such as `event` or `id`) says nothing
about the data. The data of an event is its lines with line feeds between them; an event without
data is none, and so is an event whose empty line never comes. A byte order mark in front is no part
of the text.

`events` is that reader, on the characters of a text that has arrived in full. It has three layers:
the ended lines of a text (`eventLines`), what a line says (`dataValue`), and the events that a list
of lines makes up (`eventData`). `write` is a writer for it, with one data line for every line of
the data.

## Main results

- `eventLines_line`: a line is read up to its end, whichever of the three ends it has.
- `eventData_dataLines`: the lines of an event are its data, once the empty line behind them is
  read.
- `eventData_write`: the lines that events are written in are read as their data, by induction on
  the events.
- `events_write`: texts without carriage returns that are written as events are read back, whatever
  line feeds they hold. A carriage return cannot be in the data, since it would end the line.
-/

namespace Paac.EventStream

open Text (dropPrefix? splitChars)

/-! ## Reading -/

/-- The ended lines of a text, behind the characters `acc` of the first one. -/
def eventLines : List Char → List Char → List (List Char)
  | _, [] => []
  | acc, '\r' :: '\n' :: cs => acc :: eventLines [] cs
  | acc, c :: cs =>
      if c = '\n' ∨ c = '\r' then acc :: eventLines [] cs else eventLines (acc ++ [c]) cs

/-- A value without the blank in front of it. -/
def dropBlank : List Char → List Char
  | ' ' :: cs => cs
  | cs => cs

/-- What the line adds to the data of its event. -/
def dataValue (line : List Char) : Option (List Char) :=
  if line = "data".toList then some [] else (dropPrefix? "data:".toList line).map dropBlank

/-- The data of the events in these lines, of which the first one has the lines `buffer` already. -/
def eventData : List (List Char) → List (List Char) → List String
  | _, [] => []
  | buffer, line :: rest =>
      if line = [] then
        if buffer = [] then eventData [] rest
        else String.ofList (['\n'].intercalate buffer) :: eventData [] rest
      else eventData (buffer ++ (dataValue line).toList) rest

/-- A text without the byte order mark in front of it. -/
def dropMark : List Char → List Char
  | '\uFEFF' :: cs => cs
  | cs => cs

/-- The data of the events of a stream. -/
def events (text : String) : List String := eventData [] (eventLines [] (dropMark text.toList))

/-! ## Writing -/

/-- A line of data, with its end. -/
def dataLine (l : List Char) : List Char := "data: ".toList ++ (l ++ ['\n'])

/-- An event, a line for every line of its data. -/
def writeEvent (data : String) : List Char :=
  (splitChars '\n' data.toList).flatMap dataLine ++ ['\n']

/-- A stream of events. -/
def write (ds : List String) : String := String.ofList (ds.flatMap writeEvent)

/-! ## What is written is read -/

/-- **A line is read up to its end.** -/
theorem eventLines_line {l : List Char} (h : ∀ c ∈ l, c ≠ '\n' ∧ c ≠ '\r') (acc rest : List Char) :
    eventLines acc (l ++ '\n' :: rest) = (acc ++ l) :: eventLines [] rest := by
  induction l generalizing acc with
  | nil =>
      rw [List.nil_append, eventLines, if_pos (Or.inl rfl), List.append_nil]
      intro cs hcs
      simp at hcs
  | cons c cs ih =>
      rw [List.forall_mem_cons] at h
      obtain ⟨⟨hfeed, hreturn⟩, hcs⟩ := h
      rw [List.cons_append, eventLines, if_neg (by simp [hfeed, hreturn]), ih hcs, List.append_assoc]
      · rfl
      · intro cs' hc
        exact absurd hc hreturn

/-- The lines that an event is written in. -/
theorem eventLines_dataLines {ls : List (List Char)} (h : ∀ l ∈ ls, ∀ c ∈ l, c ≠ '\n' ∧ c ≠ '\r')
    (rest : List Char) :
    eventLines [] (ls.flatMap dataLine ++ rest) =
      ls.map ("data: ".toList ++ ·) ++ eventLines [] rest := by
  induction ls with
  | nil => rfl
  | cons l ls ih =>
      rw [List.forall_mem_cons] at h
      have hname : ∀ c ∈ "data: ".toList, c ≠ '\n' ∧ c ≠ '\r' := by simp
      have hline : ∀ c ∈ "data: ".toList ++ l, c ≠ '\n' ∧ c ≠ '\r' := fun c hc =>
        (List.mem_append.1 hc).elim (hname c) (h.1 c)
      have hshape : (l :: ls).flatMap dataLine ++ rest =
          ("data: ".toList ++ l) ++ '\n' :: (ls.flatMap dataLine ++ rest) := by
        simp [dataLine]
      rw [hshape, eventLines_line hline, ih h.2]
      rfl

theorem dataValue_dataLine (l : List Char) : dataValue ("data: ".toList ++ l) = some l := by
  have hne : "data: ".toList ++ l ≠ "data".toList := by
    intro h
    have hlength := congrArg List.length h
    simp at hlength
  rw [dataValue, if_neg hne]
  rfl

/-- **The lines of an event are its data**, once the empty line behind them is read. -/
theorem eventData_dataLines (ls buffer : List (List Char)) (rest : List (List Char)) :
    eventData buffer (ls.map ("data: ".toList ++ ·) ++ rest) = eventData (buffer ++ ls) rest := by
  induction ls generalizing buffer with
  | nil => rw [List.append_nil]; rfl
  | cons l ls ih =>
      have hne : "data: ".toList ++ l ≠ [] := by simp
      rw [List.map_cons, List.cons_append, eventData, if_neg hne, dataValue_dataLine, Option.toList_some,
        ih, List.append_assoc, List.singleton_append]

theorem eventData_write {data : String} (rest : List (List Char)) :
    eventData [] ((splitChars '\n' data.toList).map ("data: ".toList ++ ·) ++ [] :: rest) =
      data :: eventData [] rest := by
  rw [eventData_dataLines, List.nil_append, eventData, if_pos rfl,
    if_neg (Text.splitChars_ne_nil '\n' data.toList), Text.splitChars_eq_splitOn,
    List.intercalate_splitOn, String.ofList_toList]

/-- The lines of a text have no line feeds, and no carriage returns if the text has none. -/
theorem noEnd_splitChars {data : String} (h : '\r' ∉ data.toList) :
    ∀ l ∈ splitChars '\n' data.toList, ∀ c ∈ l, c ≠ '\n' ∧ c ≠ '\r' := by
  intro l hl c hc
  obtain ⟨hmem, hfeed⟩ := Text.exists_mem_splitChars.1 ⟨l, hl, hc⟩
  exact ⟨hfeed, fun hreturn => h (hreturn ▸ hmem)⟩

/-- **Texts written as events are read back.** -/
theorem events_write {ds : List String} (h : ∀ d ∈ ds, '\r' ∉ d.toList) : events (write ds) = ds := by
  have hmark : dropMark (ds.flatMap writeEvent) = ds.flatMap writeEvent := by
    cases ds with
    | nil => rfl
    | cons d ds =>
        -- an event begins with the name of its field
        obtain ⟨l, ls, hlines⟩ := List.exists_cons_of_ne_nil (Text.splitChars_ne_nil '\n' d.toList)
        rw [List.flatMap_cons, writeEvent, hlines]
        rfl
  rw [events, write, String.toList_ofList, hmark]
  clear hmark
  induction ds with
  | nil => rfl
  | cons d ds ih =>
      rw [List.forall_mem_cons] at h
      have hshape : (d :: ds).flatMap writeEvent =
          (splitChars '\n' d.toList).flatMap dataLine ++ '\n' :: ds.flatMap writeEvent := by
        simp [writeEvent]
      have hblank : eventLines [] ('\n' :: ds.flatMap writeEvent) =
          [] :: eventLines [] (ds.flatMap writeEvent) :=
        eventLines_line (l := []) (fun _ hc => absurd hc List.not_mem_nil) [] _
      rw [hshape, eventLines_dataLines (noEnd_splitChars h.1), hblank, eventData_write]
      rw [ih h.2]

/-- A carriage return ends a line, lines of one event are joined, and a last event is left open. -/
example : events "data: [\ndata:1]\r\r: note\nid: 7\r\n\r\ndata: 2\r\n\r\ndata: 3\n" = ["[\n1]", "2"] := by
  decide

end Paac.EventStream
