import Paac.Suggest.Audit

set_option autoImplicit false

/-!
# Appends by several processes

A record is appended in two writes, its text and then the line feed, and nothing keeps another
process from writing between them. `auditLines` lists the records that came to stand on each line;
the reader gets those that stand alone, for the texts of two records in a row are not one JSON text.

So a record can be lost to a reader, but nothing else can come of it: no line is ever read as a
record that nobody has written. Where every process writes both parts without another one in
between, each record stands on a line of its own.

## Main results

- `appendAuditRecord_writtenLog`: appending a record is two writes.
- `splitChars_writes`: the lines of a log are the records between two line feeds.
- `parse_two_objects`: two objects in a row are no JSON text.
- `readAuditLine_lineChars`: so a line is read when one record stands on it.
- `readAuditRecords_writtenLog`: a reader gets the records that stand alone, in order.
- `mem_readAuditRecords_iff`, `findDecision_writtenLog`: which records that are, and what the reader
  finds under an id.
-/

namespace Paac

open Serde

/-! ## Writes -/

/-- A write to the log. -/
inductive LogWrite where
  | record (r : AuditRecord)
  | lineFeed
  deriving DecidableEq

def LogWrite.text : LogWrite → String
  | .record r => r.toJson.toText
  | .lineFeed => "\n"

/-- The write is of a record with the id. -/
def LogWrite.ofId (id : String) : LogWrite → Bool
  | .record r => r.decisionId = id
  | .lineFeed => false

/-- The log after the writes. -/
def writtenLog (ws : List LogWrite) : AuditFile :=
  ws.foldl (fun file w => some (file.getD "" ++ w.text)) none

/-- The records on each line; behind the last line feed there is one more line. -/
def auditLines : List LogWrite → List (List AuditRecord)
  | [] => [[]]
  | .lineFeed :: ws => [] :: auditLines ws
  | .record r :: ws =>
      match auditLines ws with
      | [] => [[r]]
      | line :: lines => (r :: line) :: lines

/-- The record of a line, when it stands alone. -/
def standsAlone : List AuditRecord → Option AuditRecord
  | [r] => some r
  | _ => none

/-- Appending a record is two writes. -/
theorem appendAuditRecord_writtenLog (ws : List LogWrite) (r : AuditRecord) :
    appendAuditRecord (writtenLog ws) r = writtenLog (ws ++ [.record r, .lineFeed]) := by
  rw [writtenLog, writtenLog, List.foldl_append]
  rfl

/-! ## Lines -/

/-- The text of a line. -/
def lineChars (line : List AuditRecord) : List Char := line.flatMap fun r => r.toJson.toText.toList

theorem toList_writtenLog (ws : List LogWrite) :
    ((writtenLog ws).getD "").toList = ws.flatMap fun w => w.text.toList := by
  induction ws using List.reverseRecOn with
  | nil => rfl
  | append_singleton ws w ih =>
      rw [writtenLog, List.foldl_append, List.flatMap_append, ← ih]
      simp [writtenLog]

/-- A text without the separator goes in front of the first part. -/
theorem splitChars_prepend {c : Char} {cs : List Char} (h : c ∉ cs) (ds : List Char) :
    ∀ {piece : List Char} {rest : List (List Char)}, Text.splitChars c ds = piece :: rest →
      Text.splitChars c (cs ++ ds) = (cs ++ piece) :: rest := by
  intro piece rest hds
  induction cs with
  | nil => exact hds
  | cons d cs ih =>
      have hd : d ≠ c := fun hd => h (hd ▸ List.mem_cons_self)
      have hcs := ih fun hmem => h (List.mem_cons_of_mem _ hmem)
      simp [Text.splitChars, hd, hcs]

theorem auditLines_ne_nil (ws : List LogWrite) : auditLines ws ≠ [] := by
  cases ws with
  | nil => simp [auditLines]
  | cons w ws =>
      cases w with
      | lineFeed => simp [auditLines]
      | record r =>
          rw [auditLines]
          split <;> simp

/-- The parts of the log between line feeds are the texts of its lines. -/
theorem splitChars_writes (ws : List LogWrite) :
    Text.splitChars '\n' (ws.flatMap fun w => w.text.toList) = (auditLines ws).map lineChars := by
  induction ws with
  | nil => rfl
  | cons w ws ih =>
      rw [List.flatMap_cons]
      cases w with
      | lineFeed =>
          have hfeed : LogWrite.lineFeed.text.toList = ['\n'] := rfl
          rw [hfeed, List.singleton_append, Text.splitChars, if_pos rfl, ih]
          rfl
      | record r =>
          rw [auditLines]
          cases hlines : auditLines ws with
          | nil => exact absurd hlines (auditLines_ne_nil ws)
          | cons line lines =>
              rw [hlines, List.map_cons] at ih
              exact splitChars_prepend (Json.toText_one_line r.writable).1 _ ih

theorem not_mem_lineChars (line : List AuditRecord) : '\r' ∉ lineChars line := by
  intro hmem
  obtain ⟨r, -, hr⟩ := List.mem_flatMap.1 hmem
  exact (Json.toText_one_line r.writable).2 hr

/-! ## Reading -/

/-- Behind a complete object there is no other. -/
theorem parse_two_objects {v : Json} (hv : v.Writable) (rest : List Char) :
    Json.parse (String.ofList (v.toText.toList ++ '\x7b' :: rest)) = none := by
  obtain ⟨r, hr, hdelivered⟩ := Json.readAll_toText v hv (.value .top) .top [] rfl
  have hopen : Json.readAll Json.Reader.init (v.toText.toList ++ ['\x7b']) = none :=
    hdelivered.readAll hr rfl rfl
  rw [Json.parse, String.toList_ofList, List.append_cons, Json.readAll_append, hopen]
  rfl

theorem exists_opened (r : AuditRecord) : ∃ cs, r.toJson.toText.toList = '\x7b' :: cs := by
  simp only [AuditRecord.toJson, Json.toText, String.toList_append]
  exact ⟨_, rfl⟩

/-- The reader gets the record that stands alone on its line. -/
theorem readAuditLine_lineChars (line : List AuditRecord) :
    readAuditLine (String.ofList (lineChars line)) = standsAlone line := by
  cases line with
  | nil => rfl
  | cons r rest =>
      cases rest with
      | nil =>
          have hchars : String.ofList (lineChars [r]) = (AuditLine.record r).toJson.toText := by
            rw [lineChars, List.flatMap_singleton, String.ofList_toList]
            rfl
          rw [hchars, readAuditLine_toText]
          rfl
      | cons r' rest =>
          obtain ⟨cs, hcs⟩ := exists_opened r'
          have hchars : lineChars (r :: r' :: rest) =
              r.toJson.toText.toList ++ '\x7b' :: (cs ++ lineChars rest) := by
            simp [lineChars, hcs]
          have hparse := parse_two_objects r.writable (cs ++ lineChars rest)
          rw [hchars, readAuditLine]
          simp only [fromText, hparse]
          split <;> rfl

theorem readAuditLine_empty : readAuditLine "" = none := rfl

/-- An empty line is no record, so the end of the text does not matter. -/
theorem filterMap_closeLines (lines : List (List AuditRecord)) :
    ((Text.closeLines (lines.map lineChars)).map String.ofList).filterMap readAuditLine =
      lines.filterMap standsAlone := by
  induction lines with
  | nil => rfl
  | cons line lines ih =>
      rw [List.map_cons, List.filterMap_cons, ← readAuditLine_lineChars]
      cases lines with
      | nil =>
          rw [List.map_nil, Text.closeLines]
          split
          · rename_i hempty
            rw [List.isEmpty_iff.1 hempty, String.ofList_nil, readAuditLine_empty]
            rfl
          · rw [List.map_singleton, List.filterMap_cons]
            rfl
      | cons line' lines =>
          rw [Text.closeLines_cons (by simp),
            Text.dropCarriageReturn_of_not_mem (not_mem_lineChars line), List.map_cons,
            List.filterMap_cons, ih]

theorem readAuditRecords_getD (file : AuditFile) :
    readAuditRecords file = (Text.lines (file.getD "")).filterMap readAuditLine := by
  cases file <;> rfl

/-- **The reader gets the records that stand alone on their lines, in order.** -/
theorem readAuditRecords_writtenLog (ws : List LogWrite) :
    readAuditRecords (writtenLog ws) = (auditLines ws).filterMap standsAlone := by
  rw [readAuditRecords_getD, Text.lines, toList_writtenLog, splitChars_writes,
    filterMap_closeLines]

/-- Two processes that write at the same time lose both records. -/
example (r r' : AuditRecord) :
    readAuditRecords (writtenLog [.record r, .record r', .lineFeed, .lineFeed]) = [] :=
  readAuditRecords_writtenLog _

/-- A record on a line was written. -/
theorem mem_of_mem_auditLines {ws : List LogWrite} {r : AuditRecord} :
    ∀ {line : List AuditRecord}, line ∈ auditLines ws → r ∈ line → .record r ∈ ws := by
  induction ws with
  | nil =>
      intro line hline hr
      rw [List.mem_singleton.1 hline] at hr
      cases hr
  | cons w ws ih =>
      intro line hline hr
      cases w with
      | lineFeed =>
          rcases List.mem_cons.1 hline with rfl | hline
          · cases hr
          · exact List.mem_cons_of_mem _ (ih hline hr)
      | record r' =>
          rw [auditLines] at hline
          cases hlines : auditLines ws with
          | nil => exact absurd hlines (auditLines_ne_nil ws)
          | cons first lines =>
              rw [hlines] at hline ih
              rcases List.mem_cons.1 hline with rfl | hline
              · rcases List.mem_cons.1 hr with rfl | hr
                · exact List.mem_cons_self
                · exact List.mem_cons_of_mem _ (ih List.mem_cons_self hr)
              · exact List.mem_cons_of_mem _ (ih (List.mem_cons_of_mem _ hline) hr)

theorem standsAlone_eq_some {line : List AuditRecord} {r : AuditRecord} :
    standsAlone line = some r ↔ line = [r] := by
  cases line with
  | nil => simp [standsAlone]
  | cons r' rest => cases rest <;> simp [standsAlone]

/-- A record is read exactly when it stands alone on a line. -/
theorem mem_readAuditRecords_iff {ws : List LogWrite} {r : AuditRecord} :
    r ∈ readAuditRecords (writtenLog ws) ↔ [r] ∈ auditLines ws := by
  rw [readAuditRecords_writtenLog, List.mem_filterMap]
  simp [standsAlone_eq_some]

/-- What is read was written. -/
theorem mem_readAuditRecords {ws : List LogWrite} {r : AuditRecord}
    (h : r ∈ readAuditRecords (writtenLog ws)) : .record r ∈ ws :=
  mem_of_mem_auditLines (mem_readAuditRecords_iff.1 h) List.mem_cons_self

/-- A decision that was written once is found when its record stands alone on a line, and there is
no other under its id. -/
theorem findDecision_writtenLog {ws : List LogWrite} {d : AuthzDecision} {id : String}
    (h : ws.filter (LogWrite.ofId id) = [.record (.fromDecision d 0)]) :
    findDecision (writtenLog ws) id =
      if [.fromDecision d 0] ∈ auditLines ws then some d else none := by
  have hunique : ∀ r ∈ readAuditRecords (writtenLog ws), r.decisionId = id →
      r = .fromDecision d 0 := by
    intro r hr hid
    have hmem : LogWrite.record r ∈ ws.filter (LogWrite.ofId id) :=
      List.mem_filter.2 ⟨mem_readAuditRecords hr, decide_eq_true hid⟩
    rw [h] at hmem
    exact LogWrite.record.inj (List.mem_singleton.1 hmem)
  have hid : (AuditRecord.fromDecision d 0).decisionId = id := by
    have hmem : LogWrite.record (.fromDecision d 0) ∈ ws.filter (LogWrite.ofId id) := by
      rw [h]
      exact List.mem_singleton_self _
    exact of_decide_eq_true (List.mem_filter.1 hmem).2
  rw [findDecision]
  cases hfind : (readAuditRecords (writtenLog ws)).find? fun r => r.decisionId = id with
  | none =>
      rw [if_neg]
      · rfl
      · intro halone
        have hnone := List.find?_eq_none.1 hfind _ (mem_readAuditRecords_iff.2 halone)
        exact hnone (decide_eq_true hid)
  | some r =>
      have hr := List.mem_of_find?_eq_some hfind
      have hrid := List.find?_some hfind
      rw [decide_eq_true_eq] at hrid
      obtain rfl := hunique r hr hrid
      rw [if_pos (mem_readAuditRecords_iff.1 hr)]
      rfl

end Paac
