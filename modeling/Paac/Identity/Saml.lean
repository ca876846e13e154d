import Paac.Identity.Jwt
import Paac.Library.Xml

set_option autoImplicit false

/-!
# Identities from SAML assertions

The adapter reads the fields of an assertion by searching its text: for the end of a tag, for a
quoted name, and then for the next value tag. The model keeps the slices that these searches return,
with the place where they start, so that one can say of which element a value is.

The documents are the well-formed ones, as forests of elements with every spelling that XML allows
(`Library/Xml.lean`). A search on the text becomes a search on the pieces of the forest, since no
piece can begin or end inside what is looked for, except that a quoted name may stand anywhere in a
piece. A field is read from its own element exactly when reading begins right after a start tag of
the kind, and this is a condition on the order of the pieces (`ReadInPlace`): the first piece that
mentions `NameID>` is the start tag of a name identifier, and the first value tag behind each quoted
name is a value of that attribute.

## Main results

- `xmlTagSlice_eq`, `xmlAttributeSlice_eq`: the searches as cuts of the text.
- `sliceAfter_pieces`, `xmlAttributeSlice_pieces`: a search in sealed pieces reads what it reads in
  the text.
- `nameIdSlice_pieces`, `fieldSlice_pieces`: on a well-formed document they stop in one piece of it.
- `takenFrom_slice_iff`, `takenFrom_value_iff`: when a slice is the content of the element meant.
- `fieldFrom_iff`, `nameId_iff`: the same of the fields and of the name id.
- `parseAssertion_own_iff`: for every well-formed document, when each field is that of its element.
- `formatted_name_lost`: where the name identifier has an attribute, its end tag is found first, and
  nothing is read in its place.
-/

namespace Paac

open Text Xml

/-- What the adapter calls of the base64 library, and the text of an encoding error. -/
structure Base64Library where
  decodeStandard : String → Except String (List UInt8)
  utf8Error : List UInt8 → String

/-- A slice of a text: where it starts, and what it reads. -/
structure Slice where
  start : ℕ
  text : String
  deriving DecidableEq, Repr

/-! ## Searching the text -/

/-- The beginning of every end tag. -/
def closeMark : List Char := ['<', '/']

def saml2Value : List Char := "<saml2:AttributeValue>".toList

def bareValue : List Char := "<AttributeValue>".toList

/-- The slice that `extract_xml_tag` reads. -/
def xmlTagSlice (xml tagName : String) : Option Slice := do
  let target := (tagName ++ ">").toList
  let idx ← find target xml.toList
  let rest := xml.toList.drop (idx + target.length)
  let closeIdx ← find closeMark rest
  return ⟨idx + target.length, String.ofList (rest.take closeIdx)⟩

/-- `extract_xml_tag`. -/
def extractXmlTag (xml tagName : String) : Option String :=
  (xmlTagSlice xml tagName).map fun s => trim s.text

/-- The name in double quotes. -/
def quoted (name : String) : List Char := '"' :: (name.toList ++ ['"'])

/-- The slice that `extract_xml_attribute_value` reads. -/
def xmlAttributeSlice (xml attrName : String) : Option Slice := do
  let idx ← find (quoted attrName) xml.toList
  let rest := xml.toList.drop idx
  let valOpen ← find saml2Value rest <|> find bareValue rest
  let start :=
    if (dropPrefix? saml2Value (rest.drop valOpen)).isSome then valOpen + 22 else valOpen + 16
  let valRest := rest.drop start
  let valClose ← find closeMark valRest
  return ⟨idx + start, String.ofList (valRest.take valClose)⟩

/-- `extract_xml_attribute_value`. -/
def extractXmlAttributeValue (xml attrName : String) : Option String :=
  (xmlAttributeSlice xml attrName).map fun s => trim s.text

/-! ## The adapter -/

/-- The assertion, decoded unless it is XML already. -/
def rawAssertion (lib : Base64Library) (xmlOrB64 : String) : Except IdentityError String :=
  if startsWith "<" (trim xmlOrB64) then .ok xmlOrB64
  else
    match lib.decodeStandard (trim xmlOrB64) with
    | .error e => .error (.msg ("invalid base64 saml assertion: " ++ e))
    | .ok bytes =>
        match String.fromUTF8? ⟨bytes.toArray⟩ with
        | some raw => .ok raw
        | none => .error (.msg (lib.utf8Error bytes))

/-- The pieces of a list with commas, trimmed, without the empty ones. -/
def listed (raw : String) : List String := ((split ',' raw).map trim).filter fun s => !s.isEmpty

def userId (nameId : String) : String :=
  if startsWith "user:" nameId then nameId else "user:" ++ nameId

/-- `parse_assertion`. -/
def parseAssertion (lib : Base64Library) (xmlOrB64 : String) :
    Except IdentityError CanonicalIdentity := do
  let raw ← rawAssertion lib xmlOrB64
  -- of two spellings the first that is found is taken
  let nameId := (extractXmlTag raw "NameID" <|> extractXmlTag raw "saml:NameID").getD
    "user:saml-principal"
  let email := extractXmlAttributeValue raw "email" <|> extractXmlAttributeValue raw "mail"
  let rolesRaw := (extractXmlAttributeValue raw "roles" <|> extractXmlAttributeValue raw "role").getD ""
  let groupsRaw :=
    (extractXmlAttributeValue raw "groups" <|> extractXmlAttributeValue raw "memberOf").getD ""
  return {
    id := userId nameId
    displayName := (extractXmlAttributeValue raw "displayName").getD ""
    email := email
    source := "saml2"
    roles := listed rolesRaw
    groups := listed groupsRaw
    attrs := .empty }

/-! ## What the fields should come from -/

/-- The namespace of assertions. -/
def assertionNamespace : String := "urn:oasis:names:tc:SAML:2.0:assertion"

/-- Is this an element of assertions with that name? -/
def isSaml (name : String) (scope : List Tag) (tag : Tag) : Bool :=
  tag.localName == name && namespaceOf (tag :: scope) tag.label == some assertionNamespace

def isNameId : List Tag → Tag → Bool := isSaml "NameID"

/-- Is this a value in an attribute of one of the names? -/
def isValueOf (names : List String) (scope : List Tag) (tag : Tag) : Bool :=
  isSaml "AttributeValue" scope tag &&
    match scope with
    | [] => false
    | parent :: outer =>
        isSaml "Attribute" outer parent && names.any fun name => parent.attr "Name" == some name

/-- The document has an element of the kind. -/
def hasElement (doc : Forest) (own : List Tag → Tag → Bool) : Bool :=
  (doc.pieces []).any fun
    | .opens scope tag _ => own scope tag
    | .single scope tag => own scope tag
    | _ => false

/-- The slice is the content of an element of the kind, or the beginning of it. -/
def TakenFrom (doc : Forest) (own : List Tag → Tag → Bool) (s : Slice) : Prop :=
  ∃ pre scope tag content post, doc.pieces [] = pre ++ .opens scope tag content :: post ∧
    own scope tag = true ∧
    s.start = (pre.flatMap Piece.text).length + tag.opening.length ∧ s.text.toList <+: content

/-- The slice of the name identifier. -/
def nameIdSlice (raw : String) : Option Slice :=
  xmlTagSlice raw "NameID" <|> xmlTagSlice raw "saml:NameID"

/-- The slice of the first of the attributes that one is found for. -/
def fieldSlice (raw : String) (names : List String) : Option Slice :=
  names.findSome? (xmlAttributeSlice raw)

/-- A field is made of a value of its own attribute, or of none. -/
def FieldFrom (doc : Forest) (names : List String) (made : Option String → Prop) : Prop :=
  match fieldSlice (String.ofList doc.text) names with
  | some s => TakenFrom doc (isValueOf names) s ∧ made (some (trim s.text))
  | none => made none

/-- The id is made of the content of the name identifier, and of the name for an absent one. -/
@[irreducible] def NameIdFrom (doc : Forest) (identity : CanonicalIdentity) : Prop :=
  match nameIdSlice (String.ofList doc.text) with
  | some s => TakenFrom doc isNameId s ∧ identity.id = userId (trim s.text)
  | none => hasElement doc isNameId = false ∧ identity.id = "user:saml-principal"

/-- Every field of the identity is read from its own element; an absent or empty attribute gives an
empty list or no value, and an absent name identifier the name for it. -/
structure FieldsFromOwnElements (doc : Forest) (identity : CanonicalIdentity) : Prop where
  id : NameIdFrom doc identity
  email : FieldFrom doc ["email", "mail"] fun v => identity.email = v ∧ v ≠ some ""
  roles : FieldFrom doc ["roles", "role"] fun v => identity.roles = listed (v.getD "")
  groups : FieldFrom doc ["groups", "memberOf"] fun v => identity.groups = listed (v.getD "")
  displayName : FieldFrom doc ["displayName"] fun v => identity.displayName = v.getD ""

/-! ## Reading the pieces of the document -/

/-- Where reading begins: the pieces before, the piece that a mark is found in, what is left of it
after the mark, and the pieces after. -/
structure Reading where
  before : List Piece
  piece : Piece
  left : List Char
  after : List Piece

namespace Reading

/-- The text that is read. -/
def value (r : Reading) : String :=
  String.ofList (upTo closeMark (r.left ++ r.after.flatMap Piece.text))

def slice (r : Reading) : Slice :=
  ⟨(r.before.flatMap Piece.text).length + (r.piece.text.length - r.left.length), r.value⟩

/-- Reading begins right after a start tag of the kind. -/
def isAt (own : List Tag → Tag → Bool) (r : Reading) : Bool :=
  r.left.isEmpty &&
    match r.piece with
    | .opens scope tag _ => own scope tag
    | _ => false

end Reading

/-- Reading after the first piece with the mark, if an end tag follows. -/
def readsAt (w : List Char) (ps : List Piece) : Option Reading :=
  (seek Piece.text w ps).bind fun found =>
    (cut w found.2.1.text).bind fun r =>
      if (cut closeMark (r.2 ++ found.2.2.flatMap Piece.text)).isSome then
        some ⟨found.1, found.2.1, r.2, found.2.2⟩
      else none

/-- The value tag that is looked for. -/
def spelling (ps : List Piece) : List Char :=
  if (seek Piece.text saml2Value ps).isSome then saml2Value else bareValue

/-- Reading after the first value tag from the first mention of the name on. -/
def valueReading (ps : List Piece) (name : String) : Option Reading :=
  (seek Piece.text (quoted name) ps).bind fun found =>
    (cut (quoted name) found.2.1.text).bind fun r =>
      let rest := .part (quoted name ++ r.2) :: found.2.2
      (readsAt (spelling rest) rest).map fun reading =>
        { reading with before := found.1 ++ .part r.1 :: reading.before }

/-- The first of the attributes that reading begins for. -/
def fieldReading (doc : Forest) (names : List String) : Option Reading :=
  names.findSome? (valueReading (doc.pieces []))

/-- In the order of the document, the first piece that mentions `NameID>` ends so and is the start tag
of a name identifier, and the first value tag after each quoted name is of a value of that attribute.
What is found for the address is not blank. -/
structure ReadInPlace (doc : Forest) : Prop where
  id : ∀ r ∈ readsAt "NameID>".toList (doc.pieces []), r.isAt isNameId = true
  noId : readsAt "NameID>".toList (doc.pieces []) = none → hasElement doc isNameId = false
  email : ∀ r ∈ fieldReading doc ["email", "mail"],
    r.isAt (isValueOf ["email", "mail"]) = true ∧ trim r.value ≠ ""
  roles : ∀ r ∈ fieldReading doc ["roles", "role"], r.isAt (isValueOf ["roles", "role"]) = true
  groups : ∀ r ∈ fieldReading doc ["groups", "memberOf"],
    r.isAt (isValueOf ["groups", "memberOf"]) = true
  displayName : ∀ r ∈ fieldReading doc ["displayName"], r.isAt (isValueOf ["displayName"]) = true

/-! ## The searches on texts -/

/-- The slice between the first occurrence and the next end tag. -/
def sliceAfter (w cs : List Char) : Option Slice :=
  (cut w cs).bind fun r =>
    (cut closeMark r.2).map fun s => ⟨r.1.length + w.length, String.ofList s.1⟩

theorem find_bind {β : Type} (w cs : List Char) (f : ℕ → Option β) :
    (find w cs).bind f = (cut w cs).bind fun r => f r.1.length := by
  rw [find, Option.bind_map]
  rfl

/-- The text before an end tag, by the place of that. -/
theorem find_close (start : ℕ) (cs : List Char) :
    ((find closeMark cs).bind fun n => some (⟨start, String.ofList (cs.take n)⟩ : Slice)) =
      (cut closeMark cs).map fun s => ⟨start, String.ofList s.1⟩ := by
  rw [find_bind]
  cases h : cut closeMark cs with
  | none => rfl
  | some s =>
      rw [Option.bind_some, Option.map_some, cut_eq h, List.take_left']
      rfl

theorem xmlTagSlice_eq (xml tagName : String) :
    xmlTagSlice xml tagName = sliceAfter (tagName ++ ">").toList xml.toList := by
  rw [xmlTagSlice, sliceAfter]
  dsimp only [bind, pure]
  rw [find_bind]
  refine Option.bind_congr fun r hr => ?_
  rw [find_close]
  have hdrop : xml.toList.drop (r.1.length + (tagName ++ ">").toList.length) = r.2 := by
    rw [cut_eq hr, ← List.append_assoc, ← List.length_append, List.drop_left]
  rw [hdrop]

/-- The value tag that a text has. -/
def spelled (cs : List Char) : List Char :=
  if (cut saml2Value cs).isSome then saml2Value else bareValue

/-- Where a text has no value tag with a label, the label is not found at the other one. -/
theorem dropPrefix?_bare (y : List Char) : dropPrefix? saml2Value (bareValue ++ y) = none := rfl

/-- The slice of an attribute is what follows the next value tag behind its quoted name. -/
theorem xmlAttributeSlice_eq (xml attrName : String) :
    xmlAttributeSlice xml attrName =
      (cut (quoted attrName) xml.toList).bind fun r =>
        (sliceAfter (spelled (quoted attrName ++ r.2)) (quoted attrName ++ r.2)).map fun s =>
          ⟨r.1.length + s.start, s.text⟩ := by
  rw [xmlAttributeSlice]
  dsimp only [bind, pure]
  rw [find_bind]
  refine Option.bind_congr fun r hr => ?_
  have hrest : xml.toList.drop r.1.length = quoted attrName ++ r.2 := by
    rw [cut_eq hr, List.drop_left]
  rw [hrest, sliceAfter, spelled]
  generalize quoted attrName ++ r.2 = rest
  -- the prefixed spelling is tried first, anywhere in the rest
  cases hsaml : cut saml2Value rest with
  | some s =>
      have hfind : (find saml2Value rest <|> find bareValue rest) = some s.1.length := by
        rw [find, hsaml]
        rfl
      rw [hfind, Option.bind_some, Option.isSome_some, if_pos rfl, hsaml, Option.bind_some]
      have hat : rest.drop s.1.length = saml2Value ++ s.2 := by rw [cut_eq hsaml, List.drop_left]
      have hafter : rest.drop (s.1.length + 22) = s.2 := by
        rw [← List.drop_drop, hat]
        rfl
      rw [hat, dropPrefix?_append, Option.isSome_some, if_pos rfl, hafter, find_close,
        Option.map_map]
      rfl
  | none =>
      rw [Option.isSome_none, if_neg Bool.false_ne_true]
      have hfind : (find saml2Value rest <|> find bareValue rest) = find bareValue rest := by
        rw [find, hsaml]
        rfl
      rw [hfind, find_bind, Option.map_bind]
      refine Option.bind_congr fun s hs => ?_
      have hat : rest.drop s.1.length = bareValue ++ s.2 := by rw [cut_eq hs, List.drop_left]
      have hafter : rest.drop (s.1.length + 16) = s.2 := by
        rw [← List.drop_drop, hat]
        rfl
      rw [hat, dropPrefix?_bare, Option.isSome_none, if_neg Bool.false_ne_true, hafter, find_close,
        Function.comp_apply, Option.map_map]
      rfl

/-! ## The searches on the pieces -/

theorem closeMark_unbroken : Unbroken '<' '>' closeMark := by decide

theorem saml2Value_unbroken : Unbroken '<' '>' saml2Value := by decide

theorem bareValue_unbroken : Unbroken '<' '>' bareValue := by decide

/-- **A search in sealed pieces reads what it reads in the text.** -/
theorem sliceAfter_pieces {w : List Char} (hw : Unbroken '<' '>' w) {ps : List Piece}
    (hs : Sealed '<' '>' (ps.map Piece.text)) :
    sliceAfter w (ps.flatMap Piece.text) = (readsAt w ps).map Reading.slice := by
  rw [sliceAfter, cut_pieces hw ps hs, readsAt, Option.bind_assoc, Option.map_bind]
  refine Option.bind_congr fun found _ => ?_
  cases hcut : cut w found.2.1.text with
  | none =>
      rw [Function.comp_apply, hcut]
      rfl
  | some r =>
      rw [Option.map_some, Option.bind_some, Function.comp_apply, hcut, Option.bind_some]
      -- the mark is in the piece found, its end may be in a later one
      cases hclose : cut closeMark (r.2 ++ found.2.2.flatMap Piece.text) with
      | none =>
          rw [Option.map_none, Option.isSome_none, if_neg Bool.false_ne_true]
          rfl
      | some s =>
          rw [Option.map_some, Option.isSome_some, if_pos rfl, Option.map_some, Reading.slice,
            Reading.value, upTo, hclose, cut_eq hcut]
          have hlen : (r.1 ++ (w ++ r.2)).length - r.2.length = r.1.length + w.length := by
            rw [List.length_append, List.length_append]
            omega
          dsimp only
          rw [hlen, List.length_append, Nat.add_assoc]
          rfl

/-- What is read stands in one piece, at the first occurrence of the pattern. -/
theorem readsAt_eq {w : List Char} {ps : List Piece} {r : Reading} (h : readsAt w ps = some r) :
    ps = r.before ++ r.piece :: r.after ∧ ∃ b, r.piece.text = b ++ (w ++ r.left) := by
  obtain ⟨found, hseek, h⟩ := Option.bind_eq_some_iff.1 h
  obtain ⟨s, hcut, h⟩ := Option.bind_eq_some_iff.1 h
  split at h
  · cases h
    exact ⟨seek_eq hseek, s.1, cut_eq hcut⟩
  · cases h

/-- The rest of a piece and what follows is sealed as the pieces are. -/
theorem sealed_rest {pre post : List Piece} {p : Piece} {b a : List Char} (hp : p.text = b ++ a)
    (ha : a ≠ []) (hs : Sealed '<' '>' ((pre ++ p :: post).map Piece.text)) :
    Sealed '<' '>' ((.part a :: post : List Piece).map Piece.text) := by
  induction pre with
  | nil =>
      refine ⟨hs.1.imp_left fun hlast => ?_, hs.2⟩
      rw [hp, List.getLast?_append_of_ne_nil _ ha] at hlast
      exact hlast
  | cons q pre ih => exact ih hs.2

/-- A pattern occurs in the text of a document exactly when it occurs in one piece. -/
theorem cut_pieces_isSome {w : List Char} (hw : Unbroken '<' '>' w) {ps : List Piece}
    (hs : Sealed '<' '>' (ps.map Piece.text)) :
    (cut w (ps.flatMap Piece.text)).isSome = (seek Piece.text w ps).isSome := by
  rw [cut_pieces hw ps hs]
  cases hseek : seek Piece.text w ps with
  | none => rfl
  | some found => exact (Option.isSome_map ..).trans (seek_occurs hseek)

/-- **A field is read on the pieces as on the text.** -/
theorem xmlAttributeSlice_pieces {ps : List Piece} (hs : Sealed '<' '>' (ps.map Piece.text))
    {name : String} (hq : Unbroken '<' '>' (quoted name)) :
    xmlAttributeSlice (String.ofList (ps.flatMap Piece.text)) name =
      (valueReading ps name).map Reading.slice := by
  rw [xmlAttributeSlice_eq, String.toList_ofList, cut_pieces hq ps hs, valueReading,
    Option.bind_assoc, Option.map_bind]
  refine Option.bind_congr fun found hseek => ?_
  have hps := seek_eq hseek
  cases hcut : cut (quoted name) found.2.1.text with
  | none =>
      rw [Function.comp_apply, hcut]
      rfl
  | some r =>
      have hp := cut_eq hcut
      have hrest := sealed_rest hp (List.append_ne_nil_of_left_ne_nil hq.ne _) (hps ▸ hs)
      rw [Option.map_some, Option.bind_some, Function.comp_apply, hcut, Option.bind_some]
      dsimp only
      rw [← List.append_assoc]
      have htext : quoted name ++ r.2 ++ found.2.2.flatMap Piece.text =
          (.part (quoted name ++ r.2) :: found.2.2 : List Piece).flatMap Piece.text := rfl
      -- the spelling depends on the rest of the text, so on the pieces behind the name
      have hspelled : spelled ((.part (quoted name ++ r.2) :: found.2.2 : List Piece).flatMap Piece.text) =
          spelling (.part (quoted name ++ r.2) :: found.2.2) := by
        rw [spelled, spelling, cut_pieces_isSome saml2Value_unbroken hrest]
      have hunbroken : Unbroken '<' '>' (spelling (.part (quoted name ++ r.2) :: found.2.2)) := by
        rw [spelling]
        split
        · exact saml2Value_unbroken
        · exact bareValue_unbroken
      rw [htext, hspelled, sliceAfter_pieces hunbroken hrest, Option.map_map, Option.map_map]
      refine Option.map_congr fun reading _ => ?_
      rw [Function.comp_apply, Function.comp_apply, Reading.slice, Reading.slice]
      simp only [Reading.value, List.flatMap_append, List.flatMap_cons, List.length_append,
        Piece.text_part, Slice.mk.injEq, and_true]
      omega

/-! ## Slices and elements -/

/-- What stands before the next end tag in an element is content of it. -/
theorem upTo_content (content tail : List Char) :
    upTo closeMark (content ++ ('<' :: '/' :: tail)) <+: content := by
  have hacross := closeMark_unbroken.not_across (u := content) (v := '<' :: '/' :: tail)
    (Or.inr fun c hc => (Option.some.inj hc).symm)
  rw [upTo, cut_append closeMark_unbroken.ne _ _ hacross]
  cases h : cut closeMark content with
  | none =>
      have hcut : cut closeMark ('<' :: '/' :: tail) = some ([], tail) := rfl
      rw [hcut]
      show content ++ [] <+: content
      rw [List.append_nil]
  | some r => exact ⟨closeMark ++ r.2, (cut_eq h).symm⟩

variable {doc : Forest} {own : List Tag → Tag → Bool}

/-- **A slice is taken from an element of the kind exactly when reading begins right after a start tag
of the kind.** -/
theorem takenFrom_slice_iff (hdoc : doc.wellFormed = true) {r : Reading}
    (hps : doc.pieces [] = r.before ++ r.piece :: r.after)
    (hleft : r.left.length < r.piece.text.length) :
    TakenFrom doc own r.slice ↔ r.isAt own = true := by
  rw [Reading.isAt, Bool.and_eq_true, List.isEmpty_iff]
  constructor
  · rintro ⟨pre, scope, tag, content, post, hps', hown, hstart, -⟩
    -- the slice starts where one piece ends, so that is the piece with the mark
    obtain ⟨-, hp, -, hk⟩ := boundary_unique (by omega : 0 < r.piece.text.length - r.left.length)
      (doc.pieces_ne_nil [] hdoc) hps hps' (by omega) hstart
    refine ⟨List.length_eq_zero_iff.1 (by omega), ?_⟩
    rw [hp]
    exact hown
  · rintro ⟨hnil, hpiece⟩
    obtain ⟨before, piece, left, after⟩ := r
    dsimp only at hnil hpiece hps
    cases piece with
    | opens scope tag content =>
        obtain ⟨tail, htail⟩ := doc.after_opens _ _ _ _ _ _ hps
        refine ⟨before, scope, tag, content, after, hps, hpiece, ?_, ?_⟩
        · rw [Reading.slice, hnil]
          rfl
        · rw [Reading.slice, Reading.value, String.toList_ofList, hnil, List.nil_append, htail]
          exact upTo_content content tail
    | closes name pad => cases hpiece
    | single scope tag => cases hpiece
    | chars s => cases hpiece
    | markup m => cases hpiece
    | part cs => cases hpiece

/-- What stands in a start tag after its bracket has no other. -/
theorem no_bracket_in_tag {tag : Tag} (htag : tag.wellFormed = true) {b cs : List Char}
    (h : tag.opening = b ++ cs) (hhead : cs.head? ≠ some '<') : '<' ∉ cs := by
  cases b with
  | nil =>
      rw [List.nil_append] at h
      rw [← h] at hhead
      exact absurd rfl hhead
  | cons c b =>
      rw [Tag.opening, List.cons_append, List.cons.injEq] at h
      intro hmem
      apply tag.bracket htag
      rw [h.2]
      exact List.mem_append_right _ hmem

theorem spelling_head (ps : List Piece) : ∃ t, spelling ps = '<' :: t := by
  rw [spelling]
  split
  · exact ⟨_, rfl⟩
  · exact ⟨_, rfl⟩

/-- **A value is taken from an element of the kind exactly when reading begins right after a start tag
of the kind.** -/
theorem takenFrom_value_iff (hdoc : doc.wellFormed = true) {name : String} {r : Reading}
    (h : valueReading (doc.pieces []) name = some r) :
    TakenFrom doc own r.slice ↔ r.isAt own = true := by
  obtain ⟨⟨pre, p, post⟩, hseek, h⟩ := Option.bind_eq_some_iff.1 h
  obtain ⟨⟨b, a⟩, hcut, h⟩ := Option.bind_eq_some_iff.1 h
  obtain ⟨r₀, hreads, rfl⟩ := Option.map_eq_some_iff.1 h
  have hps := seek_eq hseek
  have hp := cut_eq hcut
  obtain ⟨hrest, b', hpiece⟩ := readsAt_eq hreads
  obtain ⟨t, ht⟩ := spelling_head (.part (quoted name ++ a) :: post)
  rw [ht] at hpiece
  obtain ⟨before, piece, left, after⟩ := r₀
  dsimp only at hrest hpiece hps hp ⊢
  cases before with
  | nil =>
      -- the value tag would stand in the piece that mentions the name
      rw [List.nil_append, List.cons.injEq] at hrest
      obtain ⟨rfl, rfl⟩ := hrest
      refine iff_of_false ?_ (by simp [Reading.isAt])
      rintro ⟨pre', scope, tag, content, post', hps', -, hstart, -⟩
      have hlen := congrArg List.length hp
      have hpart := congrArg List.length hpiece
      simp only [Piece.text_part, List.length_append, List.length_cons] at hlen hpart
      have hstart' : (pre.flatMap Piece.text).length +
          (b.length + ((quoted name ++ a).length - left.length)) =
            (pre'.flatMap Piece.text).length + tag.opening.length := by
        rw [← hstart, Reading.slice]
        simp only [List.flatMap_append, List.flatMap_cons, List.flatMap_nil, List.length_append,
          Piece.text_part, List.length_nil]
        omega
      rw [List.length_append] at hstart'
      obtain ⟨-, rfl, -, -⟩ := boundary_unique (by omega)
        (doc.pieces_ne_nil [] hdoc) hps hps' (by omega) hstart'
      have htag := doc.wellFormed_opens [] hdoc scope tag content (by rw [hps']; simp)
      refine no_bracket_in_tag htag hp (by rw [quoted]; simp) ?_
      rw [← show (Piece.part (quoted name ++ a)).text = quoted name ++ a from rfl, hpiece]
      simp
  | cons q before =>
      rw [List.cons_append, List.cons.injEq] at hrest
      obtain ⟨rfl, rfl⟩ := hrest
      have hslice : (⟨pre ++ .part b :: .part (quoted name ++ a) :: before, piece, left, after⟩ :
          Reading).slice = (⟨pre ++ p :: before, piece, left, after⟩ : Reading).slice := by
        rw [Reading.slice, Reading.slice]
        simp only [List.flatMap_append, List.flatMap_cons, List.length_append, Piece.text_part, hp,
          Slice.mk.injEq]
        exact ⟨by omega, rfl⟩
      rw [hslice]
      refine takenFrom_slice_iff hdoc (r := ⟨pre ++ p :: before, piece, left, after⟩) ?_ ?_
      · rw [hps, List.append_assoc, List.cons_append]
      · rw [hpiece, List.length_append, List.length_append, List.length_cons]
        dsimp only
        omega

/-! ## The fields -/

/-- A longer mark is read after only where the shorter is. -/
theorem sliceAfter_none {w cs : List Char} (v : List Char) (h : sliceAfter w cs = none) :
    sliceAfter (v ++ w) cs = none := by
  rw [sliceAfter, Option.bind_eq_none_iff] at h ⊢
  rintro ⟨x, y⟩ hcut
  rw [Option.map_eq_none_iff, ← Option.not_isSome_iff_eq_none, cut_isSome_iff]
  intro hclose
  have hcs := cut_eq hcut
  rw [List.append_assoc, ← List.append_assoc x] at hcs
  obtain ⟨x', y', hcut', hsuffix⟩ := cut_of_append (w := w) y (x ++ v)
  rw [← hcs] at hcut'
  -- what follows the longer mark is the end of what follows the first shorter one
  have hlen := hsuffix.length_le
  rw [List.length_append, List.length_append] at hlen
  have hy : y <:+ y' := List.suffix_of_suffix_length_le
    ((List.suffix_append w y).trans hsuffix) (List.suffix_append w y') (by omega)
  have hnone := h (x', y') hcut'
  rw [Option.map_eq_none_iff, ← Option.not_isSome_iff_eq_none, cut_isSome_iff] at hnone
  exact hnone (hclose.trans hy.isInfix)

/-- The name with a label is never found where the bare one is not. -/
theorem nameIdSlice_eq (raw : String) : nameIdSlice raw = xmlTagSlice raw "NameID" := by
  rw [nameIdSlice]
  cases h : xmlTagSlice raw "NameID" with
  | some s => rfl
  | none =>
      rw [xmlTagSlice_eq] at h ⊢
      exact sliceAfter_none "saml:".toList h

theorem nameIdSlice_pieces (hdoc : doc.wellFormed = true) :
    nameIdSlice (String.ofList doc.text) =
      (readsAt "NameID>".toList (doc.pieces [])).map Reading.slice := by
  rw [nameIdSlice_eq, xmlTagSlice_eq, String.toList_ofList, ← doc.text_pieces []]
  exact sliceAfter_pieces (by decide) (doc.sealed_pieces [] hdoc)

/-- A field of a document is read from one of its pieces. -/
theorem fieldSlice_pieces (hdoc : doc.wellFormed = true) {names : List String}
    (hq : ∀ name ∈ names, Unbroken '<' '>' (quoted name)) :
    fieldSlice (String.ofList doc.text) names = (fieldReading doc names).map Reading.slice := by
  rw [fieldSlice, fieldReading]
  induction names with
  | nil => rfl
  | cons name names ih =>
      rw [List.forall_mem_cons] at hq
      have hname := xmlAttributeSlice_pieces (doc.sealed_pieces [] hdoc) hq.1
      rw [doc.text_pieces []] at hname
      rw [List.findSome?_cons, List.findSome?_cons, hname]
      cases valueReading (doc.pieces []) name with
      | some r => rfl
      | none => exact ih hq.2

/-- A field with two names is read under the first one that occurs. -/
theorem extract_orElse (raw name name' : String) :
    (extractXmlAttributeValue raw name <|> extractXmlAttributeValue raw name') =
      (fieldSlice raw [name, name']).map fun s => trim s.text := by
  rw [extractXmlAttributeValue, extractXmlAttributeValue, fieldSlice, List.findSome?_cons,
    List.findSome?_cons]
  cases xmlAttributeSlice raw name with
  | some s => rfl
  | none => cases xmlAttributeSlice raw name' <;> rfl

/-- **A field is made of its own values exactly when reading for it begins in place.** -/
theorem fieldFrom_iff (hdoc : doc.wellFormed = true) {names : List String}
    (hq : ∀ name ∈ names, Unbroken '<' '>' (quoted name)) {made : Option String → Prop} :
    FieldFrom doc names made ↔
      (∀ r ∈ fieldReading doc names, r.isAt (isValueOf names) = true ∧ made (some (trim r.value))) ∧
        (fieldReading doc names = none → made none) := by
  rw [FieldFrom, fieldSlice_pieces hdoc hq]
  cases hreading : fieldReading doc names with
  | none => exact ⟨fun h => ⟨fun r hr => absurd hr (Option.some_ne_none r).symm, fun _ => h⟩,
      fun h => h.2 rfl⟩
  | some r =>
      obtain ⟨name, -, hname⟩ := List.exists_of_findSome?_eq_some hreading
      dsimp only [Option.map_some]
      rw [takenFrom_value_iff hdoc hname]
      constructor
      · intro h
        refine ⟨fun r' hr' => ?_, fun hnone => absurd hnone (Option.some_ne_none r)⟩
        obtain rfl := Option.some.inj hr'
        exact h
      · exact fun h => h.1 r rfl

/-- A field that is made of what is read, in place. -/
theorem fieldFrom_made_iff (hdoc : doc.wellFormed = true) (names : List String)
    (hq : ∀ name ∈ names, Unbroken '<' '>' (quoted name)) (made : Option String → Prop)
    (hmade : made ((fieldReading doc names).map fun r => trim r.value)) :
    FieldFrom doc names made ↔
      ∀ r ∈ fieldReading doc names, r.isAt (isValueOf names) = true := by
  rw [fieldFrom_iff hdoc hq]
  constructor
  · exact fun h r hr => (h.1 r hr).1
  · refine fun h => ⟨fun r hr => ⟨h r hr, ?_⟩, fun hnone => ?_⟩
    · rwa [hr] at hmade
    · rwa [hnone] at hmade

/-- When the name id of an identity is that of the document. -/
theorem nameId_iff (hdoc : doc.wellFormed = true) {identity : CanonicalIdentity}
    (hid : identity.id = userId (((readsAt "NameID>".toList (doc.pieces [])).map
      fun r => trim r.value).getD "user:saml-principal")) :
    NameIdFrom doc identity ↔
      (∀ r ∈ readsAt "NameID>".toList (doc.pieces []), r.isAt isNameId = true) ∧
        (readsAt "NameID>".toList (doc.pieces []) = none → hasElement doc isNameId = false) := by
  rw [NameIdFrom, nameIdSlice_pieces hdoc]
  cases hreads : readsAt "NameID>".toList (doc.pieces []) with
  | none =>
      rw [hreads] at hid
      constructor
      · exact fun h => ⟨fun r hr => absurd hr (Option.not_mem_none r), fun _ => h.1⟩
      · exact fun h => ⟨h.2 rfl, hid⟩
  | some r =>
      rw [hreads] at hid
      obtain ⟨hps, b, hpiece⟩ := readsAt_eq hreads
      -- the mark was found in the piece, so the slice starts inside it
      have hleft : r.left.length < r.piece.text.length := by
        have hmark : 0 < "NameID>".toList.length := by decide
        rw [hpiece, List.length_append, List.length_append]
        omega
      dsimp only [Option.map_some]
      rw [takenFrom_slice_iff hdoc hps hleft]
      constructor
      · refine fun h => ⟨fun r' hr' => ?_, fun hnone => absurd hnone (Option.some_ne_none r)⟩
        obtain rfl := Option.some.inj hr'
        exact h.1
      · exact fun h => ⟨h.1 r rfl, hid⟩

/-- A text that begins with a bracket is read as it is. -/
theorem rawAssertion_bracket (lib : Base64Library) (cs : List Char) :
    rawAssertion lib (String.ofList ('<' :: cs)) = .ok (String.ofList ('<' :: cs)) := by
  have htrim : (trim (String.ofList ('<' :: cs))).toList =
      List.rdropWhile isWhitespace ('<' :: cs) := by
    rw [trim, String.toList_ofList, String.toList_ofList]
    rfl
  have hhead : startsWith "<" (trim (String.ofList ('<' :: cs))) = true := by
    rw [startsWith, stripPrefix, Option.isSome_map, isSome_dropPrefix?, htrim]
    have hle := List.rdropWhile_prefix isWhitespace (l := '<' :: cs)
    cases hdrop : List.rdropWhile isWhitespace ('<' :: cs) with
    | nil => exact absurd (List.rdropWhile_eq_nil_iff.1 hdrop '<' List.mem_cons_self) (by decide)
    | cons c rest =>
        rw [hdrop, List.cons_prefix_cons] at hle
        rw [hle.1]
        exact List.prefix_append ['<'] rest
  rw [rawAssertion, if_pos hhead]

/-- **The adapter reads the pieces of the document.** -/
theorem parseAssertion_pieces {lib : Base64Library} {input : String} (hdoc : doc.wellFormed = true)
    (hraw : rawAssertion lib input = .ok (String.ofList doc.text)) :
    parseAssertion lib input = .ok
      { id := userId (((readsAt "NameID>".toList (doc.pieces [])).map fun r => trim r.value).getD
          "user:saml-principal")
        displayName := ((fieldReading doc ["displayName"]).map fun r => trim r.value).getD ""
        email := (fieldReading doc ["email", "mail"]).map fun r => trim r.value
        source := "saml2"
        roles := listed (((fieldReading doc ["roles", "role"]).map fun r => trim r.value).getD "")
        groups :=
          listed (((fieldReading doc ["groups", "memberOf"]).map fun r => trim r.value).getD "")
        attrs := .empty } := by
  have hslices : ∀ names, (∀ name ∈ names, Unbroken '<' '>' (quoted name)) →
      ((fieldSlice (String.ofList doc.text) names).map fun s => trim s.text) =
        (fieldReading doc names).map fun r => trim r.value := by
    intro names hq
    rw [fieldSlice_pieces hdoc hq, Option.map_map]
    rfl
  have hname : extractXmlAttributeValue (String.ofList doc.text) "displayName" =
      (fieldSlice (String.ofList doc.text) ["displayName"]).map fun s => trim s.text := by
    rw [extractXmlAttributeValue, fieldSlice, List.findSome?_cons]
    cases xmlAttributeSlice (String.ofList doc.text) "displayName" <;> rfl
  -- the two tags are tried in turn, as the slices are
  have hid : (extractXmlTag (String.ofList doc.text) "NameID" <|>
      extractXmlTag (String.ofList doc.text) "saml:NameID") =
        (readsAt "NameID>".toList (doc.pieces [])).map fun r => trim r.value := by
    have hslice := congrArg (Option.map fun s : Slice => trim s.text) (nameIdSlice_pieces hdoc)
    rw [Option.map_map] at hslice
    refine Eq.trans ?_ hslice
    rw [nameIdSlice, extractXmlTag, extractXmlTag]
    cases xmlTagSlice (String.ofList doc.text) "NameID" with
    | some s => rfl
    | none => cases xmlTagSlice (String.ofList doc.text) "saml:NameID" <;> rfl
  rw [parseAssertion, hraw]
  dsimp only [bind, Except.bind, pure, Except.pure]
  rw [hid, extract_orElse, extract_orElse, extract_orElse, hname, hslices _ (by decide),
    hslices _ (by decide), hslices _ (by decide), hslices _ (by decide)]

/-- **When the fields of an assertion are read from their own elements.** -/
theorem parseAssertion_own_iff (lib : Base64Library) (input : String) (doc : Forest)
    (identity : CanonicalIdentity) (hdoc : doc.wellFormed = true)
    (hraw : rawAssertion lib input = .ok (String.ofList doc.text))
    (h : parseAssertion lib input = .ok identity) :
    FieldsFromOwnElements doc identity ↔ ReadInPlace doc := by
  have hread := Except.ok.inj (h.symm.trans (parseAssertion_pieces hdoc hraw))
  have hid := nameId_iff hdoc (congrArg CanonicalIdentity.id hread)
  have hroles := fieldFrom_made_iff hdoc ["roles", "role"] (by decide)
    (fun v => identity.roles = listed (v.getD "")) (congrArg CanonicalIdentity.roles hread)
  have hgroups := fieldFrom_made_iff hdoc ["groups", "memberOf"] (by decide)
    (fun v => identity.groups = listed (v.getD "")) (congrArg CanonicalIdentity.groups hread)
  have hname := fieldFrom_made_iff hdoc ["displayName"] (by decide)
    (fun v => identity.displayName = v.getD "") (congrArg CanonicalIdentity.displayName hread)
  -- the email is the one field that stays optional, and a blank one is not dropped
  have hemail : FieldFrom doc ["email", "mail"] (fun v => identity.email = v ∧ v ≠ some "") ↔
      ∀ r ∈ fieldReading doc ["email", "mail"],
        r.isAt (isValueOf ["email", "mail"]) = true ∧ trim r.value ≠ "" := by
    have heq := congrArg CanonicalIdentity.email hread
    dsimp only at heq
    rw [fieldFrom_iff hdoc (by decide)]
    constructor
    · exact fun h r hr => ⟨(h.1 r hr).1, fun hblank => (h.1 r hr).2.2 (congrArg some hblank)⟩
    · refine fun h => ⟨fun r hr => ⟨(h r hr).1, ?_, ?_⟩, fun hnone => ⟨?_, Option.some_ne_none _ |>.symm⟩⟩
      · rw [heq, Option.mem_def.1 hr]
        rfl
      · exact fun hblank => (h r hr).2 (Option.some.inj hblank)
      · rw [heq, hnone]
        rfl
  constructor
  · intro h
    obtain ⟨hat, hno⟩ := hid.1 h.id
    exact ⟨hat, hno, hemail.1 h.email, hroles.1 h.roles, hgroups.1 h.groups, hname.1 h.displayName⟩
  · intro h
    exact ⟨hid.2 ⟨h.id, h.noId⟩, hemail.2 h.email, hroles.2 h.roles, hgroups.2 h.groups,
      hname.2 h.displayName⟩

/-! ## Two assertions -/

namespace KnownAssertion

/-- The library is not called for XML. -/
def library : Base64Library where
  decodeStandard _ := .error "invalid"
  utf8Error _ := "invalid utf-8"

def element (name : String) (attrs : List Attr) (inner rest : Forest) : Forest :=
  .element ⟨name, attrs, ""⟩ inner "" rest

def valued (name value : String) (rest : Forest) : Forest :=
  element "saml2:Attribute" [.plain "Name" name]
    (element "saml2:AttributeValue" [] (.chars value .nil) .nil) rest

/-- An assertion about a subject with these attributes on its name. -/
def assertion (nameAttrs : List Attr) : Forest :=
  element "saml2:Assertion" [.plain "xmlns:saml2" assertionNamespace]
    (element "saml2:Subject" []
      (element "saml2:NameID" nameAttrs (.chars "user:saml-alex" .nil) .nil)
      (element "saml2:AttributeStatement" []
        (valued "email" "alex@example.com"
          (valued "roles" "HR_HEAD,EMPLOYEE" (valued "groups" "HR" .nil))) .nil)) .nil

def identity (id : String) : CanonicalIdentity :=
  { id := id
    displayName := ""
    email := some "alex@example.com"
    source := "saml2"
    roles := ["HR_HEAD", "EMPLOYEE"]
    groups := ["HR"]
    attrs := .empty }

/-- The format of a name. -/
def format : Attr :=
  .plain "Format" "urn:oasis:names:tc:SAML:1.1:nameid-format:unspecified"

theorem rawAssertion_assertion (nameAttrs : List Attr) :
    rawAssertion library (String.ofList (assertion nameAttrs).text) =
      .ok (String.ofList (assertion nameAttrs).text) :=
  rawAssertion_bracket library (assertion nameAttrs).text.tail

/-- What is read of an assertion. -/
theorem parseAssertion_assertion {nameAttrs : List Attr} {nameId : String}
    (hdoc : (assertion nameAttrs).wellFormed = true)
    (hid : ((readsAt "NameID>".toList ((assertion nameAttrs).pieces [])).map fun r => trim r.value) =
      some nameId)
    (hemail : ((fieldReading (assertion nameAttrs) ["email", "mail"]).map fun r => trim r.value) =
      some "alex@example.com")
    (hroles : ((fieldReading (assertion nameAttrs) ["roles", "role"]).map fun r => trim r.value) =
      some "HR_HEAD,EMPLOYEE")
    (hgroups : ((fieldReading (assertion nameAttrs) ["groups", "memberOf"]).map
      fun r => trim r.value) = some "HR")
    (hname : ((fieldReading (assertion nameAttrs) ["displayName"]).map fun r => trim r.value) =
      none) :
    parseAssertion library (String.ofList (assertion nameAttrs).text) =
      .ok (identity (userId nameId)) := by
  have hlisted : listed "HR_HEAD,EMPLOYEE" = ["HR_HEAD", "EMPLOYEE"] := by decide +kernel
  have hsingle : listed "HR" = ["HR"] := by decide +kernel
  rw [parseAssertion_pieces hdoc (rawAssertion_assertion nameAttrs), hid, hemail, hroles, hgroups, hname, Option.getD_some,
    Option.getD_some, Option.getD_some, hlisted, hsingle]
  rfl

/-- Reading begins in place for every field of an assertion without attributes on the name. -/
theorem parse_bare :
    (assertion []).wellFormed = true ∧
      parseAssertion library (String.ofList (assertion []).text) =
        .ok (identity (userId "user:saml-alex")) ∧
      ReadInPlace (assertion []) := by
  have hdoc : (assertion []).wellFormed = true := by decide +kernel
  refine ⟨hdoc, ?_, ?_⟩
  · exact parseAssertion_assertion hdoc (by decide +kernel) (by decide +kernel)
      (by decide +kernel) (by decide +kernel) (by decide +kernel)
  · exact
      { id := by decide +kernel
        noId := by decide +kernel
        email := by decide +kernel
        roles := by decide +kernel
        groups := by decide +kernel
        displayName := by decide +kernel }

/-- What is read for the name is what stands between its end tag and the next. -/
theorem parse_formatted :
    parseAssertion library (String.ofList (assertion [format]).text) =
        .ok (identity (userId "")) ∧
      ¬NameIdFrom (assertion [format]) (identity (userId "")) := by
  have hdoc : (assertion [format]).wellFormed = true := by decide +kernel
  have hreads : ((readsAt "NameID>".toList ((assertion [format]).pieces [])).map
      fun r => trim r.value) = some "" := by decide +kernel
  have hid : (identity (userId "")).id =
      userId (((readsAt "NameID>".toList ((assertion [format]).pieces [])).map
        fun r => trim r.value).getD "user:saml-principal") := by
    rw [hreads]
    rfl
  have hat : ¬∀ r ∈ readsAt "NameID>".toList ((assertion [format]).pieces []),
      r.isAt isNameId = true := by
    decide +kernel
  refine ⟨?_, fun h => hat ((nameId_iff hdoc hid).1 h).1⟩
  exact parseAssertion_assertion hdoc hreads (by decide +kernel) (by decide +kernel)
    (by decide +kernel) (by decide +kernel)

end KnownAssertion

/-- The fields of an assertion without attributes on the name are read from their own elements. -/
theorem bare_name_own :
    FieldsFromOwnElements (KnownAssertion.assertion [])
      (KnownAssertion.identity (userId "user:saml-alex")) :=
  (parseAssertion_own_iff KnownAssertion.library _ _ _ KnownAssertion.parse_bare.1
    (KnownAssertion.rawAssertion_assertion []) KnownAssertion.parse_bare.2.1).2
    KnownAssertion.parse_bare.2.2

/-- With an attribute on the name, what follows its end tag is read in its place: nothing. -/
theorem formatted_name_lost :
    parseAssertion KnownAssertion.library
        (String.ofList (KnownAssertion.assertion [KnownAssertion.format]).text) =
      .ok (KnownAssertion.identity (userId "")) ∧
      ¬FieldsFromOwnElements (KnownAssertion.assertion [KnownAssertion.format])
        (KnownAssertion.identity (userId "")) :=
  ⟨KnownAssertion.parse_formatted.1, fun h => KnownAssertion.parse_formatted.2 h.id⟩

end Paac
