import Paac.Library.Cedar.Sources

set_option autoImplicit false

/-!
# Printed names

The names of a printed policy are spliced between quotes. A printed text is therefore program text,
in which no quote, backslash or slash stands, and names between quotes (`Splices`), and it is put
together from such texts in the way the printer puts it together. What the scanner finds in it is
then a question about the names alone.

## Main results

- `source_policy`: the names are the literals of the policy meant, in the order of its text.
- `Atom.splices`, `Factor.splices`, `Printable.splices`: the printed texts are of this kind.
- `literals_printFile`: names without quotes and backslashes are the literals of the printed file.
- `isPlain_of_printFile`: when the names are the literals read from the printed file, no name has a
  quote or a backslash.
-/

namespace Paac.Cedar

/-! ## Names -/

def Atom.attr : Atom → String
  | .flag name => name
  | .eq name _ => name
  | .has name _ => name

/-- The names an atom splices. -/
def Atom.names : Atom → List String
  | .flag _ => []
  | .eq _ s => [s]
  | .has _ s => [s]

def Factor.atoms : Factor → List Atom
  | .atom a => [a]
  | .any a as => a :: as
  | .none a as => a :: as

def Printable.atoms (p : Printable) : List Atom := (p.first :: p.factors).flatMap Factor.atoms

/-- The names a policy splices, in the order of its text. -/
def Printable.names (p : Printable) : List String :=
  p.id :: p.action :: p.atoms.flatMap Atom.names

theorem strings_atom (a : Atom) : a.expr.strings = a.names := by
  cases a <;> rfl

theorem strings_orAll (es : List Expr) :
    ∀ e : Expr, (orAll e es).strings = (e :: es).flatMap Expr.strings := by
  induction es with
  | nil => exact fun e => by simp [orAll]
  | cons e' es ih =>
      intro e
      have hstep : orAll e (e' :: es) = orAll (.or e e') es := rfl
      rw [hstep, ih]
      simp [Expr.strings]

theorem strings_andAll (es : List Expr) :
    ∀ e : Expr, (andAll e es).strings = (e :: es).flatMap Expr.strings := by
  induction es with
  | nil => exact fun e => by simp [andAll]
  | cons e' es ih =>
      intro e
      have hstep : andAll e (e' :: es) = andAll (.and e e') es := rfl
      rw [hstep, ih]
      simp [Expr.strings]

theorem strings_factor (f : Factor) : f.expr.strings = f.atoms.flatMap Atom.names := by
  have hatoms : ∀ as : List Atom, (as.map Atom.expr).flatMap Expr.strings =
      as.flatMap Atom.names := by
    intro as
    rw [List.flatMap_map]
    exact congrArg (as.flatMap ·) (funext strings_atom)
  cases f with
  | atom a => simp [Factor.expr, Factor.atoms, strings_atom]
  | any a as => rw [Factor.expr, strings_orAll, ← List.map_cons, hatoms, Factor.atoms]
  | none a as =>
      rw [Factor.expr, Expr.strings, strings_orAll, ← List.map_cons, hatoms, Factor.atoms]

/-- **The literals of the policy meant are the names spliced.** -/
theorem source_policy (p : Printable) : p.policy.source = ⟨[("id", p.id)], p.effect, p.names⟩ := by
  have hfactors : ((p.first :: p.factors).map Factor.expr).flatMap Expr.strings =
      p.atoms.flatMap Atom.names := by
    rw [List.flatMap_map, Printable.atoms, List.flatMap_assoc]
    exact congrArg (List.flatMap · _) (funext strings_factor)
  rw [List.map_cons] at hfactors
  simp only [Policy.source, Policy.strings, Printable.policy, List.flatMap_cons, List.flatMap_nil,
    strings_andAll, List.append_nil, Printable.names, ← hfactors]
  rfl

/-! ## Spliced texts -/

/-- The text consists of program text and of the names between quotes. -/
def Splices (text : String) (names : List String) : Prop :=
  ∃ segs : List Segment, segs.all Segment.quiet = true ∧
    segs.flatMap Segment.chars = text.toList ∧ Segment.names segs = names

namespace Splices

variable {a b : String} {ns ms : List String}

theorem code (h : (Segment.code a).quiet = true) : Splices a [] :=
  ⟨[.code a], by rw [List.all_cons, h]; rfl, by simp [Segment.chars], rfl⟩

theorem quoted (s : String) : Splices ("\"" ++ s ++ "\"") [s] :=
  ⟨[.name s], rfl, by simp [Segment.chars], rfl⟩

theorem append (h : Splices a ns) (h' : Splices b ms) : Splices (a ++ b) (ns ++ ms) := by
  obtain ⟨segs, hquiet, hchars, hnames⟩ := h
  obtain ⟨segs', hquiet', hchars', hnames'⟩ := h'
  refine ⟨segs ++ segs', ?_, ?_, ?_⟩
  · rw [List.all_append, hquiet, hquiet']
    rfl
  · rw [List.flatMap_append, String.toList_append, hchars, hchars']
  · rw [← hnames, ← hnames']
    exact List.filterMap_append

theorem join {α : Type} {sep : String} (hsep : (Segment.code sep).quiet = true) {f : α → String}
    {g : α → List String} (as : List α) (h : ∀ x ∈ as, Splices (f x) (g x)) :
    Splices (Text.join sep (as.map f)) (as.flatMap g) := by
  induction as with
  | nil => exact ⟨[], rfl, rfl, rfl⟩
  | cons x as ih =>
      cases as with
      | nil =>
          rw [List.map_singleton, Text.join_singleton, List.flatMap_singleton]
          exact h x List.mem_cons_self
      | cons y as =>
          have hx := h x List.mem_cons_self
          have hrest := ih fun z hz => h z (List.mem_cons_of_mem x hz)
          rw [List.map_cons, List.map_cons, Text.join_cons_cons, List.flatMap_cons]
          exact hx.append ((code hsep).append hrest)

end Splices

/-- An identifier is program text. -/
theorem quiet_identifier {s : String} (h : isIdentifier s = true) :
    (Segment.code s).quiet = true := by
  -- no character of a name starts a string or a comment
  have hchar : ∀ c : Char, isIdentChar c = true → (c ≠ '"' && c ≠ '\\' && c ≠ '/') = true := by
    intro c hc
    have hquote : c ≠ '"' := by
      rintro rfl
      revert hc
      decide
    have hback : c ≠ '\\' := by
      rintro rfl
      revert hc
      decide
    have hslash : c ≠ '/' := by
      rintro rfl
      revert hc
      decide
    simp [hquote, hback, hslash]
  unfold isIdentifier at h
  rw [Segment.quiet]
  split at h
  · cases h
  · rename_i c cs hs
    rw [Bool.and_eq_true] at h
    have hfirst : isIdentChar c = true := by
      have halpha := h.1
      simp only [isIdentChar, Char.isAlphanum, Bool.or_eq_true] at halpha ⊢
      rcases halpha with halpha | hunder
      · exact .inl (.inl halpha)
      · exact .inr hunder
    rw [hs, List.all_cons, hchar c hfirst, Bool.true_and, List.all_eq_true]
    exact fun d hd => hchar d (List.all_eq_true.1 h.2 d hd)

/-- A printed comparison has its names as literals. -/
theorem Atom.splices {a : Atom} (h : isIdentifier a.attr = true) : Splices a.text a.names := by
  have hattr := Splices.code (quiet_identifier h)
  have hcontext : Splices "context." [] := Splices.code (by decide)
  cases a with
  | flag name => exact hcontext.append hattr
  | eq name s =>
      have hop : Splices " == " [] := Splices.code (by decide)
      have htext : (Atom.eq name s).text = "context." ++ name ++ " == " ++ ("\"" ++ s ++ "\"") := by
        rw [← String.toList_inj]
        simp [Atom.text]
      rw [htext]
      exact ((hcontext.append hattr).append hop).append (Splices.quoted s)
  | has name s =>
      have hop : Splices ".contains(" [] := Splices.code (by decide)
      have hclose : Splices ")" [] := Splices.code (by decide)
      have htext : (Atom.has name s).text =
          "context." ++ name ++ ".contains(" ++ ("\"" ++ s ++ "\"") ++ ")" := by
        rw [← String.toList_inj]
        simp [Atom.text]
      rw [htext]
      exact (((hcontext.append hattr).append hop).append (Splices.quoted s)).append hclose

/-- A printed factor has the names of its atoms as literals. -/
theorem Factor.splices {f : Factor} (h : ∀ a ∈ f.atoms, isIdentifier a.attr = true) :
    Splices f.text (f.atoms.flatMap Atom.names) := by
  have hor : (Segment.code " || ").quiet = true := by decide
  have hclose : Splices ")" [] := Splices.code (by decide)
  cases f with
  | atom a =>
      rw [Factor.atoms, List.flatMap_singleton]
      exact Atom.splices (h a List.mem_cons_self)
  | any a as =>
      have hopen : Splices "(" [] := Splices.code (by decide)
      have hatoms := Splices.join hor (a :: as) fun b hb => Atom.splices (h b hb)
      have hall := (hopen.append hatoms).append hclose
      rwa [List.nil_append, List.append_nil] at hall
  | none a as =>
      have hopen : Splices "!(" [] := Splices.code (by decide)
      have hatoms := Splices.join hor (a :: as) fun b hb => Atom.splices (h b hb)
      have hall := (hopen.append hatoms).append hclose
      rwa [List.nil_append, List.append_nil] at hall

/-- A printed policy splices its names and nothing else. -/
theorem Printable.splices {p : Printable} (h : ∀ a ∈ p.atoms, isIdentifier a.attr = true) :
    Splices p.text p.names := by
  have hat : Splices "@id(" [] := Splices.code (by decide)
  have hword : Splices (")\n" ++ p.effect.word) [] := by
    cases p.effect
    · exact Splices.code (by decide)
    · exact Splices.code (by decide)
  have hscope : Splices " (\n  principal,\n  action == Action::" [] := Splices.code (by decide)
  have hwhen : Splices ",\n  resource\n) when \x7b\n  " [] := Splices.code (by decide)
  have hend : Splices "\n\x7d;\n" [] := Splices.code (by decide)
  have hcondition : Splices p.condition (p.atoms.flatMap Atom.names) := by
    rw [Printable.atoms, List.flatMap_assoc]
    refine Splices.join (by decide) (p.first :: p.factors) fun f hf => Factor.splices fun a ha => ?_
    exact h a (List.mem_flatMap.2 ⟨f, hf, ha⟩)
  have htext : p.text = "@id(" ++ ("\"" ++ p.id ++ "\"") ++ (")\n" ++ p.effect.word) ++
      " (\n  principal,\n  action == Action::" ++ ("\"" ++ p.action ++ "\"") ++
      ",\n  resource\n) when \x7b\n  " ++ p.condition ++ "\n\x7d;\n" := by
    rw [← String.toList_inj]
    simp [Printable.text]
  rw [htext]
  have hall := ((((((hat.append (Splices.quoted p.id)).append hword).append hscope).append
    (Splices.quoted p.action)).append hwhen).append hcondition).append hend
  simpa [Printable.names] using hall

/-- The policies of a file behind its comment. -/
theorem splices_printed (ps : List Printable)
    (h : ∀ p ∈ ps, ∀ a ∈ p.atoms, isIdentifier a.attr = true) :
    ∀ out : String, ∃ body, ps.foldl (fun out p => out ++ p.text ++ "\n") out = out ++ body ∧
      Splices body (ps.flatMap Printable.names) := by
  induction ps with
  | nil => exact fun out => ⟨"", String.append_empty.symm, [], rfl, rfl, rfl⟩
  | cons p ps ih =>
      intro out
      have hbreak : Splices "\n" [] := Splices.code (by decide)
      have hp := (Printable.splices (h p List.mem_cons_self)).append hbreak
      obtain ⟨body, hbody, hsplices⟩ :=
        ih (fun q hq => h q (List.mem_cons_of_mem p hq)) (out ++ p.text ++ "\n")
      refine ⟨p.text ++ "\n" ++ body, ?_, ?_⟩
      · rw [List.foldl_cons, hbody, String.append_assoc, String.append_assoc, String.append_assoc]
      · rw [List.flatMap_cons]
        rw [List.append_nil] at hp
        exact hp.append hsplices

/-- A comment line has no literals. -/
theorem scanAll_commentLine {comment : String}
    (h : comment.toList.all (fun c => c ≠ '\n' && c ≠ '\r') = true) (raws : List (List Char)) :
    scanAll ⟨.code, raws⟩ ("//" ++ comment ++ "\n").toList = ⟨.code, raws⟩ := by
  have hinside : ∀ cs : List Char, cs.all (fun c => c ≠ '\n' && c ≠ '\r') = true →
      scanAll ⟨.comment, raws⟩ cs = ⟨.comment, raws⟩ := by
    intro cs hcs
    induction cs with
    | nil => rfl
    | cons c cs ih =>
        rw [List.all_cons, Bool.and_eq_true, Bool.and_eq_true] at hcs
        have hc : ¬(c = '\n' ∨ c = '\r') :=
          not_or.2 ⟨of_decide_eq_true hcs.1.1, of_decide_eq_true hcs.1.2⟩
        rw [scanAll_cons]
        simp only [scanStep, if_neg hc]
        exact ih hcs.2
  have hopen : scanAll ⟨.code, raws⟩ "//".toList = ⟨.comment, raws⟩ := rfl
  rw [String.toList_append, String.toList_append, scanAll_append, scanAll_append, hopen,
    hinside _ h]
  rfl

/-- A printed file consists of a comment line and of text that splices the names of its policies. -/
theorem scanAll_printFile {comment : String} {ps : List Printable}
    (hcomment : comment.toList.all (fun c => c ≠ '\n' && c ≠ '\r') = true)
    (hattrs : ∀ p ∈ ps, ∀ a ∈ p.atoms, isIdentifier a.attr = true) :
    ∃ segs : List Segment, segs.all Segment.quiet = true ∧
      Segment.names segs = ps.flatMap Printable.names ∧
      scanAll ⟨.code, []⟩ (printFile comment ps).toList =
        scanAll ⟨.code, []⟩ (segs.flatMap Segment.chars) := by
  obtain ⟨body, hbody, segs, hquiet, hchars, hnames⟩ :=
    splices_printed ps hattrs ("//" ++ comment ++ "\n")
  refine ⟨segs, hquiet, hnames, ?_⟩
  rw [printFile, hbody, String.toList_append, scanAll_append, scanAll_commentLine hcomment, hchars]

/-- **The literals of a printed file** of plain names are the names. -/
theorem literals_printFile {comment : String} {ps : List Printable}
    (hcomment : comment.toList.all (fun c => c ≠ '\n' && c ≠ '\r') = true)
    (hattrs : ∀ p ∈ ps, ∀ a ∈ p.atoms, isIdentifier a.attr = true)
    (hplain : (ps.flatMap Printable.names).all isPlain = true) :
    literals (printFile comment ps) = some ((ps.flatMap Printable.names).map String.toList) := by
  obtain ⟨segs, hquiet, hnames, hscan⟩ := scanAll_printFile hcomment hattrs
  rw [← hnames] at hplain ⊢
  rw [literals, hscan, scanAll_segments segs hquiet hplain]
  rfl

/-- **Names read back from a printed file are plain.** -/
theorem isPlain_of_printFile {comment : String} {ps : List Printable} {raws : List (List Char)}
    (hcomment : comment.toList.all (fun c => c ≠ '\n' && c ≠ '\r') = true)
    (hattrs : ∀ p ∈ ps, ∀ a ∈ p.atoms, isIdentifier a.attr = true)
    (h : literals (printFile comment ps) = some raws)
    (hden : Denote raws (ps.flatMap Printable.names)) :
    (ps.flatMap Printable.names).all isPlain = true := by
  obtain ⟨segs, hquiet, hnames, hscan⟩ := scanAll_printFile hcomment hattrs
  rw [literals, hscan] at h
  rw [← hnames] at hden ⊢
  exact isPlain_of_literals segs hquiet [] raws h hden

end Paac.Cedar
