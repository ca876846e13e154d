import Paac.Library.Search

set_option autoImplicit false

/-!
# XML text

The content of an XML document as a forest of elements, character data and other markup, and its
text. White space in tags, both kinds of quotes and every spelling of an attribute value are kept,
so each well-formed content is the text of one forest. `pieces` lists the tags and what stands
between them, in the order of the document; a start tag carries the elements around it and the text
inside.

What a tag says is defined as a parser would find it: the value of an attribute with its references
replaced (`Attr.decoded`), the local name and the namespace that its label stands for inside the
enclosing elements (`namespaceOf`). A search on the raw text is then compared with these.

## Main results

- `text_pieces`: the text of a forest is that of its pieces.
- `sealed_pieces`: no piece of a well-formed forest ends or begins inside another one's bracket, so
  that `Search.lean` applies to them.
- `wellFormed_opens`, `after_opens`: what follows a start tag is the content of its element, and
  then the end tag.
- `Tag.bracket`: a tag has its brackets at its ends only.
-/

namespace Paac.Xml

open Text

/-! ## Names -/

/-- The white space of XML. -/
def isSpace (c : Char) : Bool := c == ' ' || c == '\t' || c == '\n' || c == '\r'

/-- `NameStartChar`. -/
def isNameStart (c : Char) : Bool :=
  let n := c.toNat
  n == 0x3A || n == 0x5F || (0x41 ≤ n && n ≤ 0x5A) || (0x61 ≤ n && n ≤ 0x7A) ||
    (0xC0 ≤ n && n ≤ 0xD6) || (0xD8 ≤ n && n ≤ 0xF6) || (0xF8 ≤ n && n ≤ 0x2FF) ||
    (0x370 ≤ n && n ≤ 0x37D) || (0x37F ≤ n && n ≤ 0x1FFF) || (0x200C ≤ n && n ≤ 0x200D) ||
    (0x2070 ≤ n && n ≤ 0x218F) || (0x2C00 ≤ n && n ≤ 0x2FEF) || (0x3001 ≤ n && n ≤ 0xD7FF) ||
    (0xF900 ≤ n && n ≤ 0xFDCF) || (0xFDF0 ≤ n && n ≤ 0xFFFD) || (0x10000 ≤ n && n ≤ 0xEFFFF)

/-- `NameChar`. -/
def isNameChar (c : Char) : Bool :=
  let n := c.toNat
  isNameStart c || n == 0x2D || n == 0x2E || (0x30 ≤ n && n ≤ 0x39) || n == 0xB7 ||
    (0x300 ≤ n && n ≤ 0x36F) || (0x203F ≤ n && n ≤ 0x2040)

def isName (s : String) : Bool :=
  (s.toList.head?.any isNameStart) && s.toList.all isNameChar

def allSpace (s : String) : Bool := s.toList.all isSpace

/-! ## Tags -/

/-- An attribute as it is written: white space, the name, the equals sign and the quoted value. -/
structure Attr where
  lead : String
  name : String
  before : String
  after : String
  quote : Char
  value : String
  deriving DecidableEq

namespace Attr

def text (a : Attr) : List Char :=
  a.lead.toList ++ a.name.toList ++ a.before.toList ++ '=' :: (a.after.toList ++
    a.quote :: (a.value.toList ++ [a.quote]))

def wellFormed (a : Attr) : Bool :=
  allSpace a.lead && !a.lead.isEmpty && isName a.name && allSpace a.before && allSpace a.after &&
    (a.quote == '"' || a.quote == '\'') &&
    a.value.toList.all fun c => c != a.quote && c != '<'

/-- An attribute without further white space, in double quotes. -/
def plain (name value : String) : Attr := ⟨" ", name, "", "", '"', value⟩

end Attr

/-- What stands in a start tag. -/
structure Tag where
  name : String
  attrs : List Attr
  pad : String
  deriving DecidableEq

namespace Tag

def inside (t : Tag) : List Char := t.name.toList ++ t.attrs.flatMap Attr.text ++ t.pad.toList

def wellFormed (t : Tag) : Bool :=
  isName t.name && t.attrs.all Attr.wellFormed && decide (t.attrs.map Attr.name).Nodup &&
    allSpace t.pad

/-- The start tag. -/
def opening (t : Tag) : List Char := '<' :: (t.inside ++ ['>'])

end Tag

/-! ## What a tag says -/

def digitValue (base : ℕ) (c : Char) : Option ℕ :=
  let n := if c.isDigit then c.toNat - 0x30 else if c.isLower then c.toNat - 0x57
    else if c.isUpper then c.toNat - 0x37 else base
  if n < base then some n else none

def number (base : ℕ) (s : List Char) : Option ℕ :=
  s.foldlM (fun n c => (digitValue base c).map (base * n + ·)) 0

/-- The character that a reference stands for. -/
def referenced (s : List Char) : Option Char :=
  match s with
  | '#' :: 'x' :: digits => (number 16 digits).map Char.ofNat
  | '#' :: digits => (number 10 digits).map Char.ofNat
  | name =>
      (["amp", "lt", "gt", "quot", "apos"].zip ['&', '<', '>', '"', '\'']).lookup (String.ofList name)

/-- Replace the references; `fuel` bounds the number of characters read. -/
def decodeFrom : ℕ → List Char → List Char
  | 0, cs => cs
  | _ + 1, [] => []
  | fuel + 1, '&' :: cs =>
      match splitOnceChars ';' cs with
      | some (name, rest) =>
          match referenced name with
          | some c => c :: decodeFrom fuel rest
          -- a reference that is not known stays as it is written
          | none => '&' :: decodeFrom fuel cs
      | none => '&' :: cs
  | fuel + 1, c :: cs => (if isSpace c then ' ' else c) :: decodeFrom fuel cs

/-- The value of an attribute: references stand for characters, and white space for blanks. -/
def Attr.decoded (a : Attr) : String := String.ofList (decodeFrom a.value.length a.value.toList)

namespace Tag

/-- The value of an attribute of the tag. -/
def attr (t : Tag) (name : String) : Option String :=
  (t.attrs.find? (·.name == name)).map Attr.decoded

/-- The namespace label of the name, empty where there is none, and the rest. -/
def label (t : Tag) : String := ((splitOnce ':' t.name).map Prod.fst).getD ""

def localName (t : Tag) : String := ((splitOnce ':' t.name).map Prod.snd).getD t.name

end Tag

/-- The namespace that a label stands for inside the elements, the nearest first. -/
def namespaceOf (scope : List Tag) (label : String) : Option String :=
  scope.findSome? fun t => t.attr (if label = "" then "xmlns" else "xmlns:" ++ label)

/-! ## Forests -/

/-- Markup that is no element: comments, character data sections, processing instructions (the
declaration of a document among them) and a document type. -/
inductive Markup where
  | comment (text : String)
  | cdata (text : String)
  | instruction (text : String)
  | doctype (text : String)
  deriving DecidableEq

namespace Markup

def text : Markup → List Char
  | comment s => "<!--".toList ++ s.toList ++ "-->".toList
  | cdata s => "<![CDATA[".toList ++ s.toList ++ "]]>".toList
  | instruction s => "<?".toList ++ s.toList ++ "?>".toList
  | doctype s => "<!DOCTYPE".toList ++ s.toList ++ ">".toList

/-- The text does not end early. -/
def wellFormed : Markup → Bool
  | comment s => !contains "--" s && !endsWith "-" s
  | cdata s => !contains "]]>" s
  | instruction s => !contains "?>" s
  | doctype _ => true

end Markup

/-- Elements, character data and other markup, each with what follows it. -/
inductive Forest where
  | nil
  | chars (text : String) (rest : Forest)
  | markup (m : Markup) (rest : Forest)
  | empty (tag : Tag) (rest : Forest)
  | element (tag : Tag) (inner : Forest) (pad : String) (rest : Forest)

/-- The end tag of an element. -/
def closing (name pad : String) : List Char := '<' :: '/' :: (name.toList ++ pad.toList ++ ['>'])

namespace Forest

def text : Forest → List Char
  | nil => []
  | chars s rest => s.toList ++ rest.text
  | markup m rest => m.text ++ rest.text
  | empty tag rest => '<' :: (tag.inside ++ ['/', '>']) ++ rest.text
  | element tag inner pad rest =>
      tag.opening ++ (inner.text ++ (closing tag.name pad ++ rest.text))

def isChars : Forest → Bool
  | chars _ _ => true
  | _ => false

/-- Names are names, values and texts do not end early, and character data is not divided. -/
def wellFormed : Forest → Bool
  | nil => true
  | chars s rest =>
      !s.isEmpty && s.toList.all (· != '<') && !contains "]]>" s && !rest.isChars && rest.wellFormed
  | markup m rest => m.wellFormed && rest.wellFormed
  | empty tag rest => tag.wellFormed && rest.wellFormed
  | element tag inner pad rest =>
      tag.wellFormed && inner.wellFormed && allSpace pad && rest.wellFormed

end Forest

/-- A piece of a document. A start tag comes with the elements that it stands in, the nearest first,
and the text of its own element. -/
inductive Piece where
  | opens (scope : List Tag) (tag : Tag) (content : List Char)
  | closes (name pad : String)
  | single (scope : List Tag) (tag : Tag)
  | chars (text : String)
  | markup (m : Markup)
  | part (text : List Char)

/-- The text of a piece; a part of another piece stands for itself. -/
def Piece.text : Piece → List Char
  | opens _ tag _ => tag.opening
  | closes name pad => closing name pad
  | single _ tag => '<' :: (tag.inside ++ ['/', '>'])
  | chars s => s.toList
  | markup m => m.text
  | part cs => cs

@[simp] theorem Piece.text_part (cs : List Char) : (Piece.part cs).text = cs := rfl

namespace Forest

/-- The pieces of a forest inside the elements of the scope. -/
def pieces (scope : List Tag) : Forest → List Piece
  | nil => []
  | chars s rest => .chars s :: rest.pieces scope
  | markup m rest => .markup m :: rest.pieces scope
  | empty tag rest => .single scope tag :: rest.pieces scope
  | element tag inner pad rest =>
      .opens scope tag inner.text ::
        (inner.pieces (tag :: scope) ++ .closes tag.name pad :: rest.pieces scope)

/-- **The pieces make up the text.** -/
theorem text_pieces (f : Forest) :
    ∀ scope, (f.pieces scope).flatMap Piece.text = f.text := by
  induction f with
  | nil => exact fun _ => rfl
  | chars s rest ih => exact fun scope => congrArg (s.toList ++ ·) (ih scope)
  | markup m rest ih => exact fun scope => congrArg (m.text ++ ·) (ih scope)
  | empty tag rest ih =>
      exact fun scope => congrArg ('<' :: (tag.inside ++ ['/', '>']) ++ ·) (ih scope)
  | element tag inner pad rest ihinner ihrest =>
      intro scope
      rw [pieces, List.flatMap_cons, List.flatMap_append, List.flatMap_cons, ihinner, ihrest]
      rfl

/-- A forest that does not begin with character data begins with a bracket. -/
theorem text_head {f : Forest} (h : f.isChars = false) : ∀ c ∈ f.text.head?, c = '<' := by
  cases f with
  | nil => exact fun c hc => absurd hc (Option.not_mem_none c)
  | chars s rest => cases h
  | markup m rest =>
      intro c hc
      cases m <;> exact (Option.some.inj hc).symm
  | empty tag rest => exact fun c hc => (Option.some.inj hc).symm
  | element tag inner pad rest => exact fun c hc => (Option.some.inj hc).symm

theorem map_flatten {scope : List Tag} (f : Forest) :
    ((f.pieces scope).map Piece.text).flatten = f.text := by
  rw [← List.flatMap_def, text_pieces]

/-- **No piece of a well-formed forest runs into the next.** -/
theorem sealed_pieces (f : Forest) :
    ∀ scope, f.wellFormed = true → Sealed '<' '>' ((f.pieces scope).map Piece.text) := by
  induction f with
  | nil => exact fun _ _ => trivial
  | chars s rest ih =>
      intro scope h
      simp only [wellFormed, Bool.and_eq_true, Bool.not_eq_true'] at h
      refine ⟨Or.inr ?_, ih scope h.2⟩
      rw [map_flatten]
      exact text_head h.1.2
  | markup m rest ih =>
      intro scope h
      rw [wellFormed, Bool.and_eq_true] at h
      refine ⟨Or.inl ?_, ih scope h.2⟩
      cases m <;> exact List.getLast?_append_of_ne_nil _ (List.cons_ne_nil _ _)
  | empty tag rest ih =>
      intro scope h
      rw [wellFormed, Bool.and_eq_true] at h
      exact ⟨Or.inl (List.getLast?_append_of_ne_nil ('<' :: tag.inside) (List.cons_ne_nil _ _)),
        ih scope h.2⟩
  | element tag inner pad rest ihinner ihrest =>
      intro scope h
      simp only [wellFormed, Bool.and_eq_true] at h
      rw [pieces, List.map_cons, List.map_append, List.map_cons]
      -- the closing tag starts what stands behind the content
      have hcloses : Sealed '<' '>'
          ((Piece.closes tag.name pad).text :: (rest.pieces scope).map Piece.text) :=
        ⟨Or.inl (List.getLast?_append_of_ne_nil ('<' :: '/' :: _) (List.cons_ne_nil _ _)),
          ihrest scope h.2⟩
      refine ⟨Or.inl (List.getLast?_append_of_ne_nil ('<' :: tag.inside) (List.cons_ne_nil _ _)), ?_⟩
      exact (ihinner _ h.1.1.2).append hcloses fun c hc => (Option.some.inj hc).symm

/-- No piece of a well-formed document is empty. -/
theorem pieces_ne_nil (f : Forest) :
    ∀ scope, f.wellFormed = true → ∀ p ∈ f.pieces scope, p.text ≠ [] := by
  induction f with
  | nil => exact fun _ _ p hp => absurd hp List.not_mem_nil
  | chars s rest ih =>
      intro scope h
      simp only [wellFormed, Bool.and_eq_true, Bool.not_eq_true'] at h
      refine List.forall_mem_cons.2 ⟨?_, ih scope h.2⟩
      have hs := h.1.1.1.1
      rw [Piece.text, Ne, String.toList_eq_nil_iff]
      rwa [String.isEmpty_eq_false_iff] at hs
  | markup m rest ih =>
      intro scope h
      rw [wellFormed, Bool.and_eq_true] at h
      refine List.forall_mem_cons.2 ⟨?_, ih scope h.2⟩
      cases m <;> exact List.append_ne_nil_of_right_ne_nil _ (List.cons_ne_nil _ _)
  | empty tag rest ih =>
      intro scope h
      rw [wellFormed, Bool.and_eq_true] at h
      exact List.forall_mem_cons.2 ⟨List.cons_ne_nil _ _, ih scope h.2⟩
  | element tag inner pad rest ihinner ihrest =>
      intro scope h
      simp only [wellFormed, Bool.and_eq_true] at h
      rw [pieces, List.forall_mem_cons, List.forall_mem_append, List.forall_mem_cons]
      exact ⟨List.cons_ne_nil _ _, ihinner _ h.1.1.2, List.cons_ne_nil _ _, ihrest scope h.2⟩

/-- The tags of the start tags are well-formed. -/
theorem wellFormed_opens (f : Forest) :
    ∀ scope, f.wellFormed = true → ∀ scope' tag content,
      Piece.opens scope' tag content ∈ f.pieces scope → tag.wellFormed = true := by
  induction f with
  | nil => exact fun _ _ _ _ _ h => absurd h List.not_mem_nil
  | chars s rest ih =>
      intro scope h scope' tag content hmem
      simp only [wellFormed, Bool.and_eq_true] at h
      rcases List.mem_cons.1 hmem with heq | hmem
      · cases heq
      · exact ih scope h.2 scope' tag content hmem
  | markup m rest ih =>
      intro scope h scope' tag content hmem
      rw [wellFormed, Bool.and_eq_true] at h
      rcases List.mem_cons.1 hmem with heq | hmem
      · cases heq
      · exact ih scope h.2 scope' tag content hmem
  | empty tag' rest ih =>
      intro scope h scope' tag content hmem
      rw [wellFormed, Bool.and_eq_true] at h
      rcases List.mem_cons.1 hmem with heq | hmem
      · cases heq
      · exact ih scope h.2 scope' tag content hmem
  | element tag' inner pad rest ihinner ihrest =>
      intro scope h scope' tag content hmem
      simp only [wellFormed, Bool.and_eq_true] at h
      rw [pieces, List.mem_cons, List.mem_append, List.mem_cons] at hmem
      -- the tag itself, a tag inside, the closing tag, a tag behind
      rcases hmem with heq | hmem | heq | hmem
      · cases heq
        exact h.1.1.1
      · exact ihinner _ h.1.1.2 scope' tag content hmem
      · cases heq
      · exact ihrest scope h.2 scope' tag content hmem

/-- **After a start tag comes the text of its element, and an end tag.** -/
theorem after_opens (f : Forest) :
    ∀ scope scope' tag content pre post, f.pieces scope = pre ++ Piece.opens scope' tag content :: post →
      ∃ tail, post.flatMap Piece.text = content ++ ('<' :: '/' :: tail) := by
  induction f with
  | nil =>
      intro scope scope' tag content pre post h
      exact absurd h.symm (List.append_ne_nil_of_right_ne_nil _ (List.cons_ne_nil _ _))
  | chars s rest ih =>
      intro scope scope' tag content pre post h
      rcases List.cons_eq_append_iff.1 h with ⟨-, heq⟩ | ⟨pre', rfl, hrest⟩
      · cases heq
      · exact ih scope scope' tag content pre' post hrest
  | markup m rest ih =>
      intro scope scope' tag content pre post h
      rcases List.cons_eq_append_iff.1 h with ⟨-, heq⟩ | ⟨pre', rfl, hrest⟩
      · cases heq
      · exact ih scope scope' tag content pre' post hrest
  | empty tag' rest ih =>
      intro scope scope' tag content pre post h
      rcases List.cons_eq_append_iff.1 h with ⟨-, heq⟩ | ⟨pre', rfl, hrest⟩
      · cases heq
      · exact ih scope scope' tag content pre' post hrest
  | element tag' inner pad rest ihinner ihrest =>
      intro scope scope' tag content pre post h
      rcases List.cons_eq_append_iff.1 h with ⟨-, heq⟩ | ⟨pre', rfl, hrest⟩
      · -- the start tag of this element
        cases heq
        rw [List.flatMap_append, text_pieces, List.flatMap_cons]
        exact ⟨_, rfl⟩
      · rcases List.append_eq_append_iff.1 hrest with ⟨mid, rfl, hafter⟩ | ⟨mid, hinner, hafter⟩
        · -- after the inner pieces
          rcases List.cons_eq_append_iff.1 hafter with ⟨-, heq⟩ | ⟨mid', rfl, hlater⟩
          · cases heq
          · exact ihrest scope scope' tag content mid' post hlater
        · cases mid with
          | nil =>
              rw [List.nil_append, List.cons.injEq] at hafter
              cases hafter.1
          | cons q mid =>
              -- among them
              rw [List.cons_append, List.cons.injEq] at hafter
              obtain ⟨rfl, rfl⟩ := hafter
              obtain ⟨tail, htail⟩ := ihinner _ scope' tag content pre' mid hinner
              rw [List.flatMap_append, htail]
              exact ⟨tail ++ _, by rw [List.append_assoc]; rfl⟩

end Forest

/-! ## Brackets in a tag -/

theorem name_bracket {s : String} (h : isName s = true) : '<' ∉ s.toList := by
  intro hmem
  rw [isName, Bool.and_eq_true] at h
  exact absurd (List.all_eq_true.1 h.2 _ hmem) (by decide)

theorem space_bracket {s : String} (h : allSpace s = true) : '<' ∉ s.toList := by
  intro hmem
  exact absurd (List.all_eq_true.1 h _ hmem) (by decide)

theorem Attr.bracket {a : Attr} (h : a.wellFormed = true) : '<' ∉ a.text := by
  simp only [Attr.wellFormed, Bool.and_eq_true, Bool.or_eq_true, beq_iff_eq, List.all_eq_true,
    bne_iff_ne] at h
  obtain ⟨⟨⟨⟨⟨⟨hlead, -⟩, hname⟩, hbefore⟩, hafter⟩, hquote⟩, hvalue⟩ := h
  have hq : '<' ≠ a.quote := by
    rcases hquote with hq | hq <;> rw [hq] <;> decide
  rw [Attr.text]
  simp only [List.mem_append, List.mem_cons, List.not_mem_nil, or_false, not_or]
  exact ⟨⟨⟨space_bracket hlead, name_bracket hname⟩, space_bracket hbefore⟩, by decide,
    space_bracket hafter, hq, fun hmem => (hvalue _ hmem).2 rfl, hq⟩

/-- A tag has no bracket inside. -/
theorem Tag.bracket {t : Tag} (h : t.wellFormed = true) : '<' ∉ t.inside ++ ['>'] := by
  simp only [Tag.wellFormed, Bool.and_eq_true] at h
  obtain ⟨⟨⟨hname, hattrs⟩, -⟩, hpad⟩ := h
  rw [Tag.inside]
  simp only [List.mem_append, List.mem_flatMap, List.mem_singleton, not_or, not_exists, not_and]
  exact ⟨⟨⟨name_bracket hname, fun a ha => Attr.bracket (List.all_eq_true.1 hattrs a ha)⟩,
    space_bracket hpad⟩, by decide⟩

end Paac.Xml
