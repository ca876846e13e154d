import Paac.Library.JsonSplice

set_option autoImplicit false

/-!
# Reading a laid-out JSON text

A text that a person has laid out consists of a few kinds of pieces: white space, brackets, colons
and commas, plain strings, and the word `true`. Between pieces the reader stands between lexemes, so
it can be followed piece by piece instead of character by character. A document that stands in the
source as a text, over many lines, is read that way: the proof has one step for each piece and none
for its characters.

## Main results

- `readAll_piece`: the reader on one piece, by the kind of the piece.
- `readAll_pieces`: reading piece by piece, by induction on the pieces.
- `LaidOut.parse_eq`: a laid-out text denotes what its pieces do.
- `LaidOut.join`: texts that are laid out line by line are laid out together.
- `flatMap_indented`, `flatMap_keyed`: the text of pieces behind a margin, and behind a key.
-/

namespace Paac

namespace Json

/-- A piece of a laid-out text. -/
inductive Piece where
  | space (cs : List Char)
  /-- A bracket, a colon or a comma. -/
  | mark (c : Char)
  | str (s : String)
  /-- `true` with the space that ends it. -/
  | yes
  deriving DecidableEq, Repr

namespace Piece

/-- The text of a piece. -/
@[simp] def chars : Piece → List Char
  | .space cs => cs
  | .mark c => [c]
  | .str s => '"' :: (s.toList ++ ['"'])
  | .yes => ['t', 'r', 'u', 'e', ' ']

/-- The piece is what its constructor says. -/
def fits : Piece → Bool
  | .space cs => cs.all isSpace
  | .mark c => ['{', '}', '[', ']', ':', ','].contains c
  | .str s => s.toList.all fun c => c ≠ '"' && c ≠ '\\' && !Text.isControl c
  | .yes => true

/-- What a piece does to a reader between two lexemes. -/
def step (f : Focus) (st : List Hole) : Piece → Option Reader
  | .space _ => some ⟨.gap, f, st⟩
  | .mark c => acceptPunctuation c f st
  | .str s => acceptString s f st
  | .yes => acceptValue (.bool true) f st

end Piece

/-- Read pieces from left to right. -/
def readPieces : Reader → List Piece → Option Reader
  | r, [] => some r
  | r, p :: ps => (p.step r.focus r.stack).bind fun r' => readPieces r' ps

/-- White space is passed over between lexemes. -/
theorem readAll_space {cs : List Char} (h : cs.all isSpace = true) (f : Focus) (st : List Hole) :
    readAll ⟨.gap, f, st⟩ cs = some ⟨.gap, f, st⟩ := by
  induction cs with
  | nil => rfl
  | cons c cs ih =>
      rw [List.all_cons, Bool.and_eq_true] at h
      have hread : read ⟨.gap, f, st⟩ c = some ⟨.gap, f, st⟩ := by
        simp [read, stepGap, h.1]
      rw [readAll, hread, Option.bind_some, ih h.2]

theorem read_mark {c : Char} (h : (Piece.mark c).fits = true) (f : Focus) (st : List Hole) :
    read ⟨.gap, f, st⟩ c = acceptPunctuation c f st := by
  have hmarks : ['{', '}', '[', ']', ':', ','].all (fun c =>
      !isSpace c && c ≠ '"' && !(c.isDigit || c = '-') && !c.isAlpha) = true := by decide
  have hc := List.all_eq_true.1 hmarks c (List.contains_iff_mem.1 h)
  simp only [Bool.and_eq_true, Bool.not_eq_true', decide_eq_true_eq] at hc
  obtain ⟨⟨⟨hspace, hquote⟩, hnumber⟩, hword⟩ := hc
  simp [read, stepGap, hspace, hquote, hnumber, hword]

/-- A plain string needs no escape. -/
theorem quoted_plain {s : String} (h : (Piece.str s).fits = true) :
    quoted s = (Piece.str s).chars ∧ isClean s = true := by
  have hchars : ∀ c ∈ s.toList, c ≠ '"' ∧ c ≠ '\\' ∧ Text.isControl c = false := by
    intro c hc
    simpa [Piece.fits, and_assoc] using List.all_eq_true.1 h c hc
  have hescape : bareEscape s.toList = s.toList := by
    rw [bareEscape, List.flatMap_congr (g := fun c => [c]), List.flatMap_singleton']
    intro c hc
    obtain ⟨hquote, hslash, -⟩ := hchars c hc
    rw [if_neg hquote, if_neg hslash]
  refine ⟨by rw [quoted, hescape]; rfl, ?_⟩
  rw [isClean, List.all_eq_true]
  intro c hc
  rw [(hchars c hc).2.2]
  rfl

/-- One piece. -/
theorem readAll_piece {p : Piece} (h : p.fits = true) (f : Focus) (st : List Hole) :
    readAll ⟨.gap, f, st⟩ p.chars = p.step f st := by
  cases p with
  | space cs => exact readAll_space h f st
  | mark c =>
      have hread := read_mark h f st
      rw [Piece.chars, readAll, hread]
      cases hr : acceptPunctuation c f st with
      | none => simp [Piece.step, hr]
      | some r => simp [Piece.step, hr, readAll]
  | str s =>
      obtain ⟨hquoted, hclean⟩ := quoted_plain h
      have hread := readAll_quoted s f st []
      rw [List.append_nil, hquoted, if_pos hclean] at hread
      rw [hread, Piece.step]
      cases acceptString s f st <;> rfl
  | yes =>
      have hword : readAll ⟨.gap, f, st⟩ ['t', 'r', 'u', 'e'] =
          some ⟨.word ['t', 'r', 'u', 'e'], f, st⟩ := rfl
      have hsplit : Piece.yes.chars = ['t', 'r', 'u', 'e'] ++ [' '] := rfl
      rw [hsplit, readAll_append, hword, Option.bind_some, Piece.step]
      -- the space ends the word
      cases f <;> rfl

theorem lexeme_acceptValue {v : Json} {f : Focus} {st : List Hole} {r : Reader}
    (h : acceptValue v f st = some r) : r.lexeme = .gap := by
  obtain ⟨hole, -, rfl⟩ := Option.map_eq_some_iff.1 h
  rfl

theorem lexeme_acceptString {s : String} {f : Focus} {st : List Hole} {r : Reader}
    (h : acceptString s f st = some r) : r.lexeme = .gap := by
  unfold acceptString at h
  split at h
  · rw [← Option.some.inj h]
  · rw [← Option.some.inj h]
  · exact lexeme_acceptValue h

theorem lexeme_closeContainer {v : Json} {st : List Hole} {r : Reader}
    (h : closeContainer v st = some r) : r.lexeme = .gap := by
  cases st with
  | nil => cases h
  | cons hole st => rw [← Option.some.inj h]

/-- After punctuation the reader stands between lexemes. -/
theorem lexeme_acceptPunctuation {c : Char} {f : Focus} {st : List Hole} {r : Reader}
    (h : acceptPunctuation c f st = some r) : r.lexeme = .gap := by
  unfold acceptPunctuation at h
  split at h
  · obtain ⟨hole, -, rfl⟩ := Option.map_eq_some_iff.1 h
    rfl
  · obtain ⟨hole, -, rfl⟩ := Option.map_eq_some_iff.1 h
    rfl
  · exact lexeme_closeContainer h
  · exact lexeme_closeContainer h
  · exact lexeme_closeContainer h
  · exact lexeme_closeContainer h
  · rw [← Option.some.inj h]
  · rw [← Option.some.inj h]
  · rw [← Option.some.inj h]
  · cases h

/-- A piece leaves the reader between two lexemes. -/
theorem lexeme_step {p : Piece} {f : Focus} {st : List Hole} {r : Reader}
    (h : p.step f st = some r) : r.lexeme = .gap := by
  cases p with
  | space cs => rw [← Option.some.inj h]
  | mark c => exact lexeme_acceptPunctuation h
  | str s => exact lexeme_acceptString h
  | yes => exact lexeme_acceptValue h

/-- **Reading piece by piece.** -/
theorem readAll_pieces {ps : List Piece} (h : ps.all Piece.fits = true) :
    ∀ (f : Focus) (st : List Hole),
      readAll ⟨.gap, f, st⟩ (ps.flatMap Piece.chars) = readPieces ⟨.gap, f, st⟩ ps := by
  induction ps with
  | nil => intro f st; rfl
  | cons p ps ih =>
      intro f st
      obtain ⟨hp, hps⟩ := Bool.and_eq_true_iff.1 h
      rw [List.flatMap_cons, readAll_append, readAll_piece hp, readPieces]
      cases hr : p.step f st with
      | none => rfl
      | some r =>
          obtain ⟨lexeme, f', st'⟩ := r
          obtain rfl : lexeme = .gap := lexeme_step hr
          exact ih hps f' st'

/-! ## Texts in pieces -/

/-- The text consists of the pieces. -/
def LaidOut (s : String) (ps : List Piece) : Prop := s.toList = ps.flatMap Piece.chars

/-- The value of a text in pieces. -/
theorem LaidOut.parse_eq {s : String} {ps : List Piece} (hs : LaidOut s ps)
    (h : ps.all Piece.fits = true) : parse s = (readPieces Reader.init ps).bind finish := by
  rw [parse, hs, Reader.init, readAll_pieces h]

/-- The pieces of lines, with line feeds between them. -/
def pieceLines (pss : List (List Piece)) : List Piece := List.intercalate [.space ['\n']] pss

/-- The characters of lines of pieces. -/
theorem flatMap_pieceLines (pss : List (List Piece)) :
    (pieceLines pss).flatMap Piece.chars =
      List.intercalate ['\n'] (pss.map (List.flatMap Piece.chars)) := by
  induction pss with
  | nil => rfl
  | cons ps pss ih =>
      cases pss with
      | nil => simp [pieceLines, List.intercalate]
      | cons qs pss =>
          have hstep : pieceLines (ps :: qs :: pss) =
              ps ++ .space ['\n'] :: pieceLines (qs :: pss) := by
            simp [pieceLines, List.intercalate]
          rw [hstep, List.flatMap_append, List.flatMap_cons, ih]
          simp [List.intercalate, Piece.chars]

/-- Lines in pieces make a text in pieces. -/
theorem LaidOut.join {ls : List String} {pss : List (List Piece)}
    (h : List.Forall₂ LaidOut ls pss) : LaidOut (Text.join "\n" ls) (pieceLines pss) := by
  have hlines : ls.map String.toList = pss.map (List.flatMap Piece.chars) := by
    induction h with
    | nil => rfl
    | cons hl _ ih => rw [List.map_cons, List.map_cons, ih, hl]
  rw [LaidOut, Text.join, String.toList_intercalate, hlines, flatMap_pieceLines]
  rfl

/-! ## Keys and margins -/

/-- Pieces behind `n` spaces. -/
def indented (n : Nat) (ps : List Piece) : List Piece := .space (List.replicate n ' ') :: ps

/-- A key, its colon and a space in front of the pieces. -/
def keyed (key : String) (ps : List Piece) : List Piece :=
  .str key :: .mark ':' :: .space [' '] :: ps

@[simp] theorem flatMap_indented (n : Nat) (ps : List Piece) :
    (indented n ps).flatMap Piece.chars = List.replicate n ' ' ++ ps.flatMap Piece.chars := rfl

@[simp] theorem flatMap_keyed (key : String) (ps : List Piece) :
    (keyed key ps).flatMap Piece.chars =
      '"' :: (key.toList ++ '"' :: ':' :: ' ' :: ps.flatMap Piece.chars) := by
  simp [keyed, Piece.chars]

end Json

end Paac
