import Paac.Library.JsonSplice

set_option autoImplicit false

/-!
# Strings spliced without escaping

A program that writes a string between quotes as it is hands the reader whatever the string
contains. A string with a quote, a backslash or a control character either stops the machine or
leaves its key with another value, whatever the text behind it is. The only condition on that text
is that it cannot spell the key again, since a later member would replace the value: some character
`bad` of the key never occurs, neither as itself nor behind a unicode escape.

The invariant is a statement about the machine (`OnTrack`): the outermost object keeps the value
under the key, and so it does inside every container that is still open. `Calm` adds what the lexeme
under construction may be, so that no step can spell the key.

## Main results

- `OnTrack.acceptValue`, `OnTrack.acceptString`, `OnTrack.acceptPunctuation`, `OnTrack.stepGap`: no
  step behind the string gives the key its value.
- `Calm.read`, `Calm.readAll`: so no text without `bad` does, by induction on its characters.
- `RawRead.read`, `RawRead.readAll`: where the reader stands in the raw string: it has the part
  itself, or a string that is too short already, or the key has another value.
- `raw_member`, `raw_member_quote`: what a raw member is read as.
- `readAll_needsNoEscape`: a string that needs no escape is read as it is, which is the other
  direction.
-/

namespace Paac

namespace Json

/-! ## What is kept -/

section

variable (key : String) (v : Json) (bad : Char)

/-- The lexeme cannot spell the key. -/
def Lexeme.Avoids : Lexeme → Prop
  | .str acc => bad ∉ acc
  | .esc acc => bad ∉ acc
  | .hex _ _ _ _ => False
  | .low _ _ => False
  | .lowU _ _ => False
  | _ => True

/-- The outermost object has the value under the key, and waits for a member of another key. -/
def Focus.Keeps : Focus → Prop
  | .value (.member ms k) => k ≠ key ∧ lookupEntry key ms = some v
  | .colon ms k => k ≠ key ∧ lookupEntry key ms = some v
  | .key ms => lookupEntry key ms = some v
  | .afterMember ms => lookupEntry key ms = some v
  | _ => False

/-- The same inside open containers. -/
def Keeps : Focus → List Hole → Prop
  | _, [] => False
  | f, [h] => h = .top ∧ f.Keeps key v
  | _, h :: h' :: st => Keeps (.value h) (h' :: st)

/-- The outermost object keeps the value, unless it is complete. -/
def OnTrack (f : Focus) (st : List Hole) : Prop := (∃ w, f = .done w) ∨ Keeps key v f st

/-- A state from which the key cannot be spelled again; `prev` is the character read last. -/
structure Calm (prev : Char) (r : Reader) : Prop where
  lexeme : r.lexeme.Avoids bad
  track : OnTrack key v r.focus r.stack
  escape : ∀ acc, r.lexeme = .esc acc → prev = '\\'

/-- A text that does not contain the character, nor a unicode escape. -/
def CalmText (prev : Char) : List Char → Prop
  | [] => True
  | c :: cs => c ≠ bad ∧ (c = 'u' → prev ≠ '\\') ∧ CalmText c cs

end

variable {key : String} {v : Json} {bad : Char}

/-! ## One character -/

/-- A value that is put into its place keeps the member. -/
theorem Keeps.fill {f : Focus} {st : List Hole} {h : Hole} (hhole : f.hole = some h)
    (hkeeps : Keeps key v f st) (w : Json) : Keeps key v (h.fill w) st := by
  match st, hkeeps with
  | [h₀], hkeeps =>
      obtain ⟨rfl, hkeeps⟩ := hkeeps
      refine ⟨rfl, ?_⟩
      cases f with
      | value h' =>
          obtain rfl := Option.some.inj hhole
          cases h' with
          | member ms k => exact (lookupEntry_insertEntry_ne hkeeps.1 w ms).trans hkeeps.2
          | top => exact hkeeps.elim
          | item vs => exact hkeeps.elim
      | firstItem => exact hkeeps.elim
      | firstKey => cases hhole
      | key ms => cases hhole
      | colon ms k => cases hhole
      | afterMember ms => cases hhole
      | afterItem vs => cases hhole
      | done w => cases hhole
  | h₀ :: h₁ :: st, hkeeps => exact hkeeps

theorem OnTrack.fill {f : Focus} {st : List Hole} {h : Hole} (hhole : f.hole = some h)
    (htrack : OnTrack key v f st) (w : Json) : OnTrack key v (h.fill w) st := by
  rcases htrack with ⟨w', rfl⟩ | hkeeps
  · cases hhole
  · exact Or.inr (hkeeps.fill hhole w)

/-- An opening bracket keeps the track. -/
theorem OnTrack.push {f : Focus} {st : List Hole} {h : Hole} (hhole : f.hole = some h)
    (htrack : OnTrack key v f st) (f' : Focus) : OnTrack key v f' (h :: st) := by
  rcases htrack with ⟨w', rfl⟩ | hkeeps
  · cases hhole
  · refine Or.inr ?_
    match st, hkeeps with
    | [h₀], hkeeps =>
        cases f with
        | value h' =>
            obtain rfl := Option.some.inj hhole
            exact hkeeps
        | firstItem => exact hkeeps.2.elim
        | firstKey => cases hhole
        | key ms => cases hhole
        | colon ms k => cases hhole
        | afterMember ms => cases hhole
        | afterItem vs => cases hhole
        | done w => cases hhole
    | h₀ :: h₁ :: st, hkeeps => exact hkeeps

/-- A closing bracket keeps the track. -/
theorem OnTrack.close {f : Focus} {st : List Hole} {w : Json} {r : Reader}
    (hnot : ∀ w, f ≠ .done w) (htrack : OnTrack key v f st)
    (h : closeContainer w st = some r) : r.lexeme = .gap ∧ OnTrack key v r.focus r.stack := by
  rcases htrack with ⟨w', hdone⟩ | hkeeps
  · exact absurd hdone (hnot w')
  · match st, hkeeps with
    | [h₀], hkeeps =>
        obtain rfl := Option.some.inj h
        obtain ⟨rfl, -⟩ := hkeeps
        exact ⟨rfl, Or.inl ⟨w, rfl⟩⟩
    | h₀ :: h₁ :: st, hkeeps =>
        obtain rfl := Option.some.inj h
        have hinner : Keeps key v (.value h₀) (h₁ :: st) := hkeeps
        exact ⟨rfl, Or.inr (hinner.fill rfl w)⟩

theorem OnTrack.acceptValue {f : Focus} {st : List Hole} {w : Json} {r : Reader}
    (htrack : OnTrack key v f st) (h : acceptValue w f st = some r) :
    r.lexeme = .gap ∧ OnTrack key v r.focus r.stack := by
  obtain ⟨hole, hhole, rfl⟩ := Option.map_eq_some_iff.1 h
  exact ⟨rfl, htrack.fill hhole w⟩

/-- A focus in front of a key may take any key but the one that is kept. -/
theorem OnTrack.colon {ms : List (String × Json)} {st : List Hole} {s : String} (hs : s ≠ key)
    (htrack : OnTrack key v (.key ms) st) : OnTrack key v (.colon ms s) st := by
  rcases htrack with ⟨w, hdone⟩ | hkeeps
  · cases hdone
  · match st, hkeeps with
    | [h₀], hkeeps => exact Or.inr ⟨hkeeps.1, hs, hkeeps.2⟩
    | h₀ :: h₁ :: st, hkeeps => exact Or.inr hkeeps

/-- A string that is not the key keeps the track. -/
theorem OnTrack.acceptString {f : Focus} {st : List Hole} {s : String} {r : Reader} (hs : s ≠ key)
    (htrack : OnTrack key v f st) (h : acceptString s f st = some r) :
    r.lexeme = .gap ∧ OnTrack key v r.focus r.stack := by
  cases f with
  | firstKey =>
      obtain rfl := Option.some.inj h
      refine ⟨rfl, ?_⟩
      rcases htrack with ⟨w, hdone⟩ | hkeeps
      · cases hdone
      · match st, hkeeps with
        | [h₀], hkeeps => exact hkeeps.2.elim
        | h₀ :: h₁ :: st, hkeeps => exact Or.inr hkeeps
  | key ms =>
      obtain rfl := Option.some.inj h
      exact ⟨rfl, htrack.colon hs⟩
  | value hole => exact htrack.acceptValue h
  | firstItem => exact htrack.acceptValue h
  | colon ms k => exact htrack.acceptValue h
  | afterMember ms => exact htrack.acceptValue h
  | afterItem vs => exact htrack.acceptValue h
  | done w => exact htrack.acceptValue h

/-- A focus that asks no more of the outermost object than another. -/
theorem OnTrack.mono {f f' : Focus} {st : List Hole} (hfocus : f.Keeps key v → f'.Keeps key v)
    (hnot : ∀ w, f ≠ .done w) (htrack : OnTrack key v f st) : OnTrack key v f' st := by
  rcases htrack with ⟨w, hdone⟩ | hkeeps
  · exact absurd hdone (hnot w)
  · match st, hkeeps with
    | [h₀], hkeeps => exact Or.inr ⟨hkeeps.1, hfocus hkeeps.2⟩
    | h₀ :: h₁ :: st, hkeeps => exact Or.inr hkeeps

/-- Punctuation keeps the track. -/
theorem OnTrack.acceptPunctuation {c : Char} {f : Focus} {st : List Hole} {r : Reader}
    (htrack : OnTrack key v f st) (h : acceptPunctuation c f st = some r) :
    r.lexeme = .gap ∧ OnTrack key v r.focus r.stack := by
  unfold Json.acceptPunctuation at h
  -- one case a rule: opening, closing, the colon and the two commas
  split at h
  · obtain ⟨hole, hhole, rfl⟩ := Option.map_eq_some_iff.1 h
    exact ⟨rfl, htrack.push hhole _⟩
  · obtain ⟨hole, hhole, rfl⟩ := Option.map_eq_some_iff.1 h
    exact ⟨rfl, htrack.push hhole _⟩
  · exact htrack.close (fun w hw => by cases hw) h
  · exact htrack.close (fun w hw => by cases hw) h
  · exact htrack.close (fun w hw => by cases hw) h
  · exact htrack.close (fun w hw => by cases hw) h
  · rename_i ms k
    obtain rfl := Option.some.inj h
    exact ⟨rfl, htrack.mono (f := .colon ms k) id fun w hw => by cases hw⟩
  · rename_i ms
    obtain rfl := Option.some.inj h
    exact ⟨rfl, htrack.mono (f := .afterMember ms) id fun w hw => by cases hw⟩
  · rename_i vs
    obtain rfl := Option.some.inj h
    exact ⟨rfl, htrack.mono (f := .afterItem vs) False.elim fun w hw => by cases hw⟩
  · cases h

/-- A character between two lexemes begins one, or is taken at once. -/
theorem OnTrack.stepGap {c : Char} {f : Focus} {st : List Hole} {r : Reader}
    (htrack : OnTrack key v f st) (h : stepGap c f st = some r) :
    r.lexeme.Avoids bad ∧ OnTrack key v r.focus r.stack ∧ ∀ acc, r.lexeme ≠ .esc acc := by
  unfold Json.stepGap at h
  split at h
  · obtain rfl := Option.some.inj h
    exact ⟨trivial, htrack, fun acc hacc => by cases hacc⟩
  split at h
  · obtain rfl := Option.some.inj h
    exact ⟨List.not_mem_nil, htrack, fun acc hacc => by cases hacc⟩
  split at h
  · obtain rfl := Option.some.inj h
    exact ⟨trivial, htrack, fun acc hacc => by cases hacc⟩
  split at h
  · obtain rfl := Option.some.inj h
    exact ⟨trivial, htrack, fun acc hacc => by cases hacc⟩
  · obtain ⟨hgap, htrack⟩ := htrack.acceptPunctuation h
    rw [hgap]
    exact ⟨trivial, htrack, fun acc hacc => by cases hacc⟩

/-- The end of a word or a number keeps the track. -/
theorem Calm.endScalar {prev : Char} {r r' : Reader} (hcalm : Calm key v bad prev r)
    (h : endScalar r = some r') : OnTrack key v r'.focus r'.stack := by
  unfold Json.endScalar at h
  split at h
  · obtain ⟨w, -, h⟩ := Option.bind_eq_some_iff.1 h
    exact (hcalm.track.acceptValue h).2
  · split at h
    · exact (hcalm.track.acceptValue h).2
    · cases h
  · obtain rfl := Option.some.inj h
    exact hcalm.track

/-- No escape denotes a lower-case letter. -/
theorem simpleEscape_ne {c d : Char} (hbad : bad.isLower = true) (h : simpleEscape c = some d) :
    d ≠ bad := by
  rintro rfl
  unfold simpleEscape at h
  split at h
  · rename_i hself
    obtain rfl := Option.some.inj h
    rcases hself with rfl | rfl | rfl
    · exact absurd hbad (by decide)
    · exact absurd hbad (by decide)
    · exact absurd hbad (by decide)
  · -- the other escapes stand for control characters
    have hcontrol : d.toNat < 32 := by
      split at h
      · rw [← Option.some.inj h]; decide
      split at h
      · rw [← Option.some.inj h]; decide
      split at h
      · rw [← Option.some.inj h]; decide
      split at h
      · rw [← Option.some.inj h]; decide
      split at h
      · rw [← Option.some.inj h]; decide
      · exact absurd h (by simp)
    simp only [Char.isLower, Bool.and_eq_true, decide_eq_true_eq, ge_iff_le,
      UInt32.le_iff_toNat_le] at hbad
    have hlow : 97 ≤ d.toNat := hbad.1
    omega

/-- **One step keeps the value.** -/
theorem Calm.read {prev c : Char} {r r' : Reader} (hkey : bad ∈ key.toList)
    (hbad : bad.isLower = true) (hcalm : Calm key v bad prev r) (hc : c ≠ bad) (hu : c = 'u' → prev ≠ '\\')
    (h : read r c = some r') : Calm key v bad c r' := by
  have hgap : ∀ {f : Focus} {st : List Hole}, OnTrack key v f st → ∀ {r' : Reader},
      Json.stepGap c f st = some r' → Calm key v bad c r' := by
    intro f st htrack r' hr'
    obtain ⟨havoids, htrack, hesc⟩ := htrack.stepGap hr'
    exact ⟨havoids, htrack, fun acc hacc => absurd hacc (hesc acc)⟩
  have hkeyNe : ∀ {acc : List Char}, bad ∉ acc → String.ofList acc ≠ key := by
    rintro acc hacc rfl
    rw [String.toList_ofList] at hkey
    exact hacc hkey
  have hlexeme := hcalm.lexeme
  unfold Json.read at h
  -- no string that is complete holds the letter `bad`, so none of them is the key
  cases hr : r.lexeme with
  | gap => exact hgap hcalm.track (by simpa only [hr] using h)
  | str acc =>
      simp only [hr] at h hlexeme
      split at h
      · obtain ⟨hgap, htrack⟩ := hcalm.track.acceptString (hkeyNe hlexeme) h
        exact ⟨by rw [hgap]; trivial, htrack, fun acc hacc => by rw [hgap] at hacc; cases hacc⟩
      split at h
      · rename_i hback
        obtain rfl := Option.some.inj h
        exact ⟨hlexeme, hcalm.track, fun _ _ => hback⟩
      split at h
      · cases h
      · obtain rfl := Option.some.inj h
        refine ⟨fun hmem => ?_, hcalm.track, fun acc hacc => by cases hacc⟩
        rcases List.mem_append.1 hmem with hmem | hmem
        · exact hlexeme hmem
        · exact hc (List.mem_singleton.1 hmem).symm
  | esc acc =>
      have hprev := hcalm.escape acc hr
      simp only [hr] at h hlexeme
      split at h
      · rename_i hunicode
        exact absurd hprev (hu hunicode)
      · obtain ⟨d, hd, rfl⟩ := Option.map_eq_some_iff.1 h
        refine ⟨fun hmem => ?_, hcalm.track, fun acc hacc => by cases hacc⟩
        rcases List.mem_append.1 hmem with hmem | hmem
        · exact hlexeme hmem
        · exact simpleEscape_ne hbad hd (List.mem_singleton.1 hmem).symm
  | hex acc high left code => rw [hr] at hlexeme; exact hlexeme.elim
  | low acc high => rw [hr] at hlexeme; exact hlexeme.elim
  | lowU acc high => rw [hr] at hlexeme; exact hlexeme.elim
  | word acc =>
      simp only [hr] at h
      split at h
      · obtain rfl := Option.some.inj h
        exact ⟨trivial, hcalm.track, fun acc hacc => by cases hacc⟩
      · obtain ⟨r₁, hr₁, h⟩ := Option.bind_eq_some_iff.1 h
        exact hgap (hcalm.endScalar hr₁) h
  | num acc =>
      simp only [hr] at h
      split at h
      · obtain rfl := Option.some.inj h
        exact ⟨trivial, hcalm.track, fun acc hacc => by cases hacc⟩
      · obtain ⟨r₁, hr₁, h⟩ := Option.bind_eq_some_iff.1 h
        exact hgap (hcalm.endScalar hr₁) h

/-- **A run keeps the value.** -/
theorem Calm.readAll (hkey : bad ∈ key.toList) (hbad : bad.isLower = true) {cs : List Char} :
    ∀ {prev : Char} {r r' : Reader}, Calm key v bad prev r → CalmText bad prev cs →
      readAll r cs = some r' → ∃ last, Calm key v bad last r' := by
  induction cs with
  | nil =>
      intro prev r r' hcalm _ h
      obtain rfl := Option.some.inj h
      exact ⟨prev, hcalm⟩
  | cons c cs ih =>
      intro prev r r' hcalm hcs h
      obtain ⟨r₁, hr₁, h⟩ := Option.bind_eq_some_iff.1 h
      exact ih (hcalm.read hkey hbad hcs.1 hcs.2.1 hr₁) hcs.2.2 h

/-- At a key of the outermost object the value is still there. -/
theorem Calm.membersAt {prev : Char} {r : Reader} {ms : List (String × Json)}
    (hcalm : Calm key v bad prev r) (h : membersAt (some r) = some ms) :
    lookupEntry key ms = some v := by
  unfold Json.membersAt at h
  split at h
  · rename_i ms' hr
    obtain rfl := Option.some.inj hr
    obtain rfl := Option.some.inj h
    rcases hcalm.track with ⟨w, hdone⟩ | hkeeps
    · cases hdone
    · exact hkeeps.2
  · cases h

/-! ## A string between quotes -/

/-- The string needs no escape. -/
def NeedsNoEscape (cs : List Char) : Prop :=
  ∀ c ∈ cs, c ≠ '"' ∧ c ≠ '\\' ∧ Text.isControl c = false

variable (key bad) in
/-- What the machine has made of the part `p` of a raw value of which `n` is the length: the part
itself; a string, or one inside an escape, that is too short already; or another value under the
key. -/
inductive RawRead (ms : List (String × Json)) (n : Nat) : List Char → Reader → Prop
  | same (p : List Char) (hp : NeedsNoEscape p) :
      RawRead ms n p ⟨.str p, .value (.member ms key), [.top]⟩
  | short (p acc : List Char) (hlen : acc.length < p.length) :
      RawRead ms n p ⟨.str acc, .value (.member ms key), [.top]⟩
  | inEscape (p acc : List Char) (hlen : acc.length < p.length) (hlast : p.getLast? = some '\\') :
      RawRead ms n p ⟨.esc acc, .value (.member ms key), [.top]⟩
  | other (p s : List Char) (r : Reader) (prev : Char) (hlen : s.length < n)
      (hprev : p.getLast? = some prev) (hcalm : Calm key (.str (String.ofList s)) bad prev r) :
      RawRead ms n p r

/-- A string that is complete is the value of its key. -/
theorem calm_of_close (ms : List (String × Json)) (s : List Char) {prev : Char} :
    Calm key (.str (String.ofList s)) bad prev
      ⟨.gap, .afterMember (insertEntry key (.str (String.ofList s)) ms), [.top]⟩ :=
  ⟨trivial, Or.inr ⟨rfl, lookupEntry_insertEntry_self _ _ ms⟩, fun acc hacc => by cases hacc⟩

/-- A character of the raw string: the reader stops, or is still inside it. -/
theorem RawRead.read (hkey : bad ∈ key.toList) (hbad : bad.isLower = true)
    {ms : List (String × Json)} {n : Nat} {p : List Char} {r r' : Reader} {c : Char}
    (hraw : RawRead key bad ms n p r) (hp : p.length < n) (hc : c.isLower = false)
    (h : Json.read r c = some r') : RawRead key bad ms n (p ++ [c]) r' := by
  have hlast : (p ++ [c]).getLast? = some c := List.getLast?_concat
  have hletter : ∀ d : Char, d.isLower = true → c ≠ d := by
    rintro d hd rfl
    rw [hc] at hd
    cases hd
  -- a string is open: it is closed, an escape begins, or the character is taken
  have hstr : ∀ {acc : List Char}, acc.length ≤ p.length → (acc = p → NeedsNoEscape p) →
      Json.read ⟨.str acc, .value (.member ms key), [.top]⟩ c = some r' →
        (acc.length < p.length ∨ acc = p) → RawRead key bad ms n (p ++ [c]) r' := by
    intro acc hlen hclean h hacc
    simp only [Json.read] at h
    split at h
    · obtain rfl := Option.some.inj h
      exact .other _ acc _ c (by omega) hlast (calm_of_close ms acc)
    split at h
    · rename_i hback
      obtain rfl := Option.some.inj h
      exact .inEscape _ acc (by rw [List.length_append, List.length_singleton]; omega)
        (hback ▸ hlast)
    split at h
    · cases h
    · rename_i hquote hback hcontrol
      obtain rfl := Option.some.inj h
      rcases hacc with hlt | rfl
      · exact .short _ _ (by
          rw [List.length_append, List.length_append, List.length_singleton]
          omega)
      · refine .same _ fun d hd => ?_
        rcases List.mem_append.1 hd with hd | hd
        · exact hclean rfl d hd
        · obtain rfl := List.mem_singleton.1 hd
          exact ⟨hquote, hback, by simpa using hcontrol⟩
  cases hraw with
  | same hclean => exact hstr le_rfl (fun _ => hclean) h (Or.inr rfl)
  | short acc hlen =>
      exact hstr hlen.le (fun hacc => by rw [hacc] at hlen; omega) h (Or.inl hlen)
  | inEscape acc hlen _ =>
      simp only [Json.read] at h
      rw [if_neg (hletter 'u' (by decide))] at h
      obtain ⟨d, -, rfl⟩ := Option.map_eq_some_iff.1 h
      exact .short _ _ (by
        rw [List.length_append, List.length_append, List.length_singleton, List.length_singleton]
        omega)
  | other s _ prev hlen hprev hcalm =>
      exact .other _ s _ c hlen hlast (hcalm.read hkey hbad (hletter bad hbad)
        (fun hu => absurd hu (hletter 'u' (by decide))) h)

/-- The whole of a raw value. -/
theorem RawRead.readAll (hkey : bad ∈ key.toList) (hbad : bad.isLower = true)
    {ms : List (String × Json)} {n : Nat} {cs : List Char} :
    ∀ {p : List Char} {r r' : Reader}, RawRead key bad ms n p r → p.length + cs.length ≤ n →
      (∀ c ∈ cs, c.isLower = false) → Json.readAll r cs = some r' →
        RawRead key bad ms n (p ++ cs) r' := by
  induction cs with
  | nil =>
      intro p r r' hraw _ _ h
      obtain rfl := Option.some.inj h
      rwa [List.append_nil]
  | cons c cs ih =>
      intro p r r' hraw hlen hlower h
      rw [List.length_cons] at hlen
      rw [List.forall_mem_cons] at hlower
      obtain ⟨r₁, hr₁, h⟩ := Option.bind_eq_some_iff.1 h
      have hstep := hraw.read hkey hbad (by omega) hlower.1 hr₁
      have hrest := ih hstep (by rw [List.length_append, List.length_singleton]; omega) hlower.2 h
      rwa [List.append_assoc, List.singleton_append] at hrest

/-- **A raw value with its closing quote, a comma and a space.** The value needs no escape, or its
key has another value, or it ends in a backslash and the string is still open. -/
theorem raw_member (hkey : bad ∈ key.toList) (hbad : bad.isLower = true)
    {ms : List (String × Json)} {cs : List Char} (hlower : ∀ c ∈ cs, c.isLower = false)
    {r : Reader} (h : Json.readAll ⟨.str [], .value (.member ms key), [.top]⟩
      (cs ++ ['"', ',', ' ']) = some r) :
    NeedsNoEscape cs ∨
      (∃ s ≠ cs, Calm key (.str (String.ofList s)) bad ' ' r) ∨
      (cs.getLast? = some '\\' ∧
        ∃ acc, r = ⟨.str (acc ++ ['"', ',', ' ']), .value (.member ms key), [.top]⟩) := by
  rw [readAll_append] at h
  obtain ⟨r₁, hr₁, h⟩ := Option.bind_eq_some_iff.1 h
  have hraw : RawRead key bad ms cs.length cs r₁ := by
    have hstart : RawRead key bad ms cs.length [] ⟨.str [], .value (.member ms key), [.top]⟩ :=
      .same [] fun c hc => absurd hc List.not_mem_nil
    simpa using hstart.readAll hkey hbad (by simp) hlower hr₁
  have hne : ∀ {s : List Char}, s.length < cs.length → s ≠ cs := by
    rintro s hs rfl
    exact absurd hs (lt_irrefl _)
  have hnot : ∀ d : Char, d.isLower = false → d ≠ bad := by
    rintro d hd rfl
    rw [hd] at hbad
    cases hbad
  -- what the raw characters did to the string decides about the three characters behind them
  cases hraw with
  | same hclean => exact Or.inl hclean
  | short acc hlen =>
      have hread : Json.readAll ⟨.str acc, .value (.member ms key), [.top]⟩ ['"', ',', ' '] =
          some ⟨.gap, .key (insertEntry key (.str (String.ofList acc)) ms), [.top]⟩ := rfl
      obtain rfl := Option.some.inj (hread.symm.trans h)
      exact Or.inr (Or.inl ⟨acc, hne hlen, trivial,
        Or.inr ⟨rfl, lookupEntry_insertEntry_self _ _ ms⟩, fun acc hacc => by cases hacc⟩)
  | inEscape acc hlen hlast =>
      have hread : Json.readAll ⟨.esc acc, .value (.member ms key), [.top]⟩ ['"', ',', ' '] =
          some ⟨.str (acc ++ ['"', ',', ' ']), .value (.member ms key), [.top]⟩ := by
        simp [Json.readAll, Json.read, simpleEscape, Text.isControl]
      obtain rfl := Option.some.inj (hread.symm.trans h)
      exact Or.inr (Or.inr ⟨hlast, acc, rfl⟩)
  | other s _ prev hlen hprev hcalm =>
      obtain ⟨r₂, hr₂, h⟩ := Option.bind_eq_some_iff.1 h
      obtain ⟨r₃, hr₃, h⟩ := Option.bind_eq_some_iff.1 h
      obtain ⟨r₄, hr₄, h⟩ := Option.bind_eq_some_iff.1 h
      obtain rfl := Option.some.inj h
      have h₂ := hcalm.read hkey hbad (hnot _ (by decide)) (fun hu => by cases hu) hr₂
      have h₃ := h₂.read hkey hbad (hnot _ (by decide)) (fun hu => by cases hu) hr₃
      exact Or.inr (Or.inl ⟨s, hne hlen,
        h₃.read hkey hbad (hnot _ (by decide)) (fun hu => by cases hu) hr₄⟩)

/-- With the quote behind it a raw value is closed in every case. -/
theorem raw_member_quote (hkey : bad ∈ key.toList) (hbad : bad.isLower = true)
    {ms : List (String × Json)} {cs : List Char} (hlower : ∀ c ∈ cs, c.isLower = false)
    {r : Reader} (h : Json.readAll ⟨.str [], .value (.member ms key), [.top]⟩
      (cs ++ ['"', ',', ' ', '"']) = some r) :
    NeedsNoEscape cs ∨ ∃ s ≠ cs, Calm key (.str (String.ofList s)) bad '"' r := by
  have hsplit : cs ++ ['"', ',', ' ', '"'] = (cs ++ ['"', ',', ' ']) ++ ['"'] := by simp
  rw [hsplit, readAll_append] at h
  obtain ⟨r₁, hr₁, h⟩ := Option.bind_eq_some_iff.1 h
  rcases raw_member hkey hbad hlower hr₁ with hclean | ⟨s, hs, hcalm⟩ | ⟨hlast, acc, rfl⟩
  · exact Or.inl hclean
  · obtain ⟨r₂, hr₂, h⟩ := Option.bind_eq_some_iff.1 h
    obtain rfl := Option.some.inj h
    refine Or.inr ⟨s, hs, hcalm.read hkey hbad ?_ (fun hu => by cases hu) hr₂⟩
    rintro rfl
    exact absurd hbad (by decide)
  · -- the open string ends in a space, the value in a backslash
    obtain rfl := Option.some.inj h
    refine Or.inr ⟨acc ++ ['"', ',', ' '], ?_, calm_of_close ms _⟩
    rintro rfl
    simp at hlast

/-- A string without lower-case letters is a calm text. -/
theorem calmText_of_not_lower (hbad : bad.isLower = true) {cs : List Char} :
    ∀ {prev : Char}, (∀ c ∈ cs, c.isLower = false) → CalmText bad prev cs := by
  induction cs with
  | nil => exact fun _ => trivial
  | cons c cs ih =>
      intro prev h
      rw [List.forall_mem_cons] at h
      refine ⟨?_, ?_, ih h.2⟩
      · rintro rfl
        rw [h.1] at hbad
        cases hbad
      · rintro rfl
        exact absurd h.1 (by decide)

/-- Reading a string that needs no escape. -/
theorem readAll_needsNoEscape {cs : List Char} (h : NeedsNoEscape cs) (f : Focus) (st : List Hole) :
    ∀ acc : List Char, Json.readAll ⟨.str acc, f, st⟩ cs = some ⟨.str (acc ++ cs), f, st⟩ := by
  induction cs with
  | nil =>
      intro acc
      rw [List.append_nil]
      rfl
  | cons c cs ih =>
      intro acc
      obtain ⟨hc, hcs⟩ := List.forall_mem_cons.1 h
      have hread : Json.read ⟨.str acc, f, st⟩ c = some ⟨.str (acc ++ [c]), f, st⟩ := by
        simp [Json.read, hc.1, hc.2.1, hc.2.2]
      rw [Json.readAll, hread, Option.bind_some, ih hcs, List.append_assoc, List.singleton_append]

end Json

end Paac
