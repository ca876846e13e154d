import Paac.Library.Cedar.Strings
import Paac.Library.Cedar.Engine

set_option autoImplicit false

/-!
# The literals of the policies read

What a policy set shows of its text: for each policy the annotations, the effect and the string
literals in the order of the text. `ShowsSources` is what callers rely on, and speaks of accepted
texts only: what a set shows denotes the literals that a scanner finds in the text. The reference
engine has such a view: the lexer reads the literals the scanner finds, and the parser loses none.

The proof runs lexer and scanner side by side. `ModeMatches` relates their states: the scanner is
inside a literal or a comment exactly when the lexer is. The parser is followed by what it holds,
the literals of the complete policies, of the open one and of the open parentheses, in the order of
the text.

## Main results

- `lexStep_matches`, `lexAll_matches`: lexer and scanner go on alike, character by character.
- `literals_of_lex`: so the string tokens of a text are its literals.
- `exprStep_strings`, `parseStep_strings`, `parseTokens_strings`: the parser puts every string token
  into the policy it belongs to, one token and then by induction.
- `literals_of_parsePolicies`: the literals of a text are those of its policies.
- `Engine.reference_showsSources`: the reference engine shows them.
-/

namespace Paac.Cedar

/-! ## The view -/

/-- What a policy shows of its text. The values of the annotations are among the literals. -/
structure PolicySource where
  annotations : List (String × String)
  effect : Effect
  strings : List String
  deriving DecidableEq, Repr

/-- The literals of an expression, from left to right. -/
def Expr.strings : Expr → List String
  | .attr _ => []
  | .eqStr e s => e.strings ++ [s]
  | .containsStr e s => e.strings ++ [s]
  | .not e => e.strings
  | .and a b => a.strings ++ b.strings
  | .or a b => a.strings ++ b.strings

/-- The literals of a policy, from left to right. -/
def Policy.strings (p : Policy) : List String :=
  p.annotations.map Prod.snd ++ (p.action.map EntityUid.id).toList ++
    p.conditions.flatMap Expr.strings

def Policy.source (p : Policy) : PolicySource := ⟨p.annotations, p.effect, p.strings⟩

/-- The literals denote the strings. -/
def Denote (raws : List (List Char)) (strings : List String) : Prop :=
  List.Forall₂ (fun raw s => Unescapes raw s.toList) raws strings

/-- `sources` shows the policies of a set as they are in the text it was read from: those of a text
in the grammar of this library are the ones parsed, and every literal of the text is a literal of
some policy. -/
structure ShowsSources (E : Engine) (sources : E.PolicySet → List PolicySource) : Prop where
  grammar : ∀ {text : String} {set : E.PolicySet} {ps : List Policy},
    E.policySetFromStr text = .ok set → parsePolicies text = some ps →
      sources set = ps.map Policy.source
  literals : ∀ {text : String} {set : E.PolicySet}, E.policySetFromStr text = .ok set →
    ∃ raws, literals text = some raws ∧ Denote raws ((sources set).flatMap PolicySource.strings)

theorem Denote.append {raws raws' : List (List Char)} {ss ss' : List String} (h : Denote raws ss)
    (h' : Denote raws' ss') : Denote (raws ++ raws') (ss ++ ss') := List.rel_append h h'

/-- One literal more. -/
theorem Denote.concat {raws : List (List Char)} {ss : List String} {raw acc : List Char}
    (h : Denote raws ss) (hraw : Unescapes raw acc) :
    Denote (raws ++ [raw]) (ss ++ [String.ofList acc]) := by
  refine h.append (.cons ?_ .nil)
  rw [String.toList_ofList]
  exact hraw

/-! ## The lexer and the scanner -/

/-- The literals among tokens. -/
def tokenStrings (ts : List Token) : List String :=
  ts.filterMap fun
    | .str s => some s
    | _ => none

theorem tokenStrings_append (ts ts' : List Token) :
    tokenStrings (ts ++ ts') = tokenStrings ts ++ tokenStrings ts' := List.filterMap_append

/-- The scanner stands where the lexer does. -/
inductive ModeMatches : Lexeme → ScanMode → Prop where
  | gap : ModeMatches .gap .code
  | ident (acc : List Char) : ModeMatches (.ident acc) .code
  | str {acc raw : List Char} (h : Unescapes raw acc) : ModeMatches (.str acc) (.str raw)
  | esc {acc raw : List Char} (h : Unescapes raw acc) :
      ModeMatches (.esc acc) (.esc (raw ++ ['\\']))
  | slash : ModeMatches .slash .slash
  | comment : ModeMatches .comment .comment
  | double {c : Char} (hquote : c ≠ '"') (hslash : c ≠ '/') : ModeMatches (.double c) .code

/-- The scanner has read what the lexer has. -/
structure Matches (s : Lexer) (r : Scanner) : Prop where
  mode : ModeMatches s.lexeme r.mode
  strings : Denote r.raws (tokenStrings s.tokens)

/-- Between tokens lexer and scanner go on alike. -/
theorem stepGap_matches {c : Char} {ts : List Token} {raws : List (List Char)} {s' : Lexer}
    (hts : Denote raws (tokenStrings ts)) (h : stepGap c ts = some s') :
    Matches s' (scanCode c raws) := by
  have hcode : c ≠ '"' → c ≠ '/' → scanCode c raws = ⟨.code, raws⟩ := by
    intro hquote hslash
    rw [scanCode, if_neg hquote, if_neg hslash]
  unfold stepGap at h
  split at h
  · rename_i hspace
    -- white space is code for the scanner too
    have hquote : c ≠ '"' := by
      rintro rfl
      cases hspace
    have hslash : c ≠ '/' := by
      rintro rfl
      cases hspace
    obtain rfl := Option.some.inj h
    rw [hcode hquote hslash]
    exact ⟨.gap, hts⟩
  · split at h
    · rename_i hquote
      obtain rfl := Option.some.inj h
      rw [scanCode, if_pos hquote]
      exact ⟨.str .nil, hts⟩
    · rename_i hquote
      split at h
      · rename_i hslash
        obtain rfl := Option.some.inj h
        rw [scanCode, if_neg hquote, if_pos hslash]
        exact ⟨.slash, hts⟩
      · rename_i hslash
        rw [hcode hquote hslash]
        split at h
        · obtain rfl := Option.some.inj h
          exact ⟨.ident [c], hts⟩
        · split at h
          · obtain rfl := Option.some.inj h
            exact ⟨.double hquote hslash, hts⟩
          · split at h
            · obtain rfl := Option.some.inj h
              refine ⟨.gap, ?_⟩
              rw [tokenStrings_append]
              simpa [tokenStrings] using hts
            · cases h

/-- In a name: no character of names is a quote or a slash. -/
theorem ident_matches {c : Char} {acc : List Char} {ts : List Token} {raws : List (List Char)}
    {s' : Lexer} (hts : Denote raws (tokenStrings ts))
    (h : lexStep ⟨.ident acc, ts⟩ c = some s') : Matches s' (scanStep ⟨.code, raws⟩ c) := by
  simp only [lexStep] at h
  split at h
  · rename_i hident
    have hquote : c ≠ '"' := by
      rintro rfl
      revert hident
      decide
    have hslash : c ≠ '/' := by
      rintro rfl
      revert hident
      decide
    obtain rfl := Option.some.inj h
    simp only [scanStep, scanCode, if_neg hquote, if_neg hslash]
    exact ⟨.ident _, hts⟩
  · have hts' : Denote raws (tokenStrings (ts ++ [.ident (String.ofList acc)])) := by
      rw [tokenStrings_append]
      simpa [tokenStrings] using hts
    exact stepGap_matches hts' h

/-- In a string: the quote ends it, and a backslash starts an escape. -/
theorem str_matches {c : Char} {acc raw : List Char} {ts : List Token}
    {raws : List (List Char)} {s' : Lexer} (hraw : Unescapes raw acc)
    (hts : Denote raws (tokenStrings ts)) (h : lexStep ⟨.str acc, ts⟩ c = some s') :
    Matches s' (scanStep ⟨.str raw, raws⟩ c) := by
  simp only [lexStep] at h
  split at h
  · rename_i hquote
    obtain rfl := Option.some.inj h
    simp only [scanStep, if_pos hquote]
    refine ⟨.gap, ?_⟩
    rw [tokenStrings_append]
    exact hts.concat hraw
  · rename_i hquote
    split at h
    · rename_i hback
      obtain rfl := Option.some.inj h
      simp only [scanStep, if_neg hquote, if_pos hback]
      rw [hback]
      exact ⟨.esc hraw, hts⟩
    · rename_i hback
      obtain rfl := Option.some.inj h
      simp only [scanStep, if_neg hquote, if_neg hback]
      exact ⟨.str (hraw.append (.char hquote hback .nil)), hts⟩

/-- **One step of the lexer is one of the scanner.** -/
theorem lexStep_matches {c : Char} {s s' : Lexer} {r : Scanner} (hs : Matches s r)
    (h : lexStep s c = some s') : Matches s' (scanStep r c) := by
  obtain ⟨hmode, hts⟩ := hs
  rcases s with ⟨lexeme, ts⟩
  rcases r with ⟨mode, raws⟩
  cases hmode with
  | gap => exact stepGap_matches hts h
  | ident acc => exact ident_matches hts h
  | str hraw => exact str_matches hraw hts h
  | @esc acc raw hraw =>
      simp only [lexStep] at h
      obtain ⟨d, hd, rfl⟩ := Option.map_eq_some_iff.1 h
      simp only [scanStep]
      rw [List.append_assoc]
      exact ⟨.str (hraw.append (.simple hd .nil)), hts⟩
  | slash =>
      simp only [lexStep] at h
      split at h
      · rename_i hslash
        obtain rfl := Option.some.inj h
        simp only [scanStep, if_pos hslash]
        exact ⟨.comment, hts⟩
      · cases h
  | comment =>
      simp only [lexStep] at h
      split at h
      · rename_i hend
        obtain rfl := Option.some.inj h
        simp only [scanStep, if_pos hend]
        exact ⟨.gap, hts⟩
      · rename_i hend
        obtain rfl := Option.some.inj h
        simp only [scanStep, if_neg hend]
        exact ⟨.comment, hts⟩
  | @double d hquote hslash =>
      simp only [lexStep] at h
      split at h
      · rename_i hd
        obtain rfl := Option.some.inj h
        rw [← hd] at hquote hslash
        simp only [scanStep, scanCode, if_neg hquote, if_neg hslash]
        refine ⟨.gap, ?_⟩
        rw [tokenStrings_append]
        simpa [tokenStrings] using hts
      · cases h

/-- **Lexer and scanner go on alike on a whole text**, by induction. -/
theorem lexAll_matches (cs : List Char) :
    ∀ {s s' : Lexer} {r : Scanner}, Matches s r → lexAll s cs = some s' →
      Matches s' (scanAll r cs) := by
  induction cs with
  | nil =>
      intro s s' r hs h
      obtain rfl := Option.some.inj h
      exact hs
  | cons c cs ih =>
      intro s s' r hs h
      obtain ⟨s₁, hstep, h⟩ := Option.bind_eq_some_iff.1 h
      exact ih (lexStep_matches hs hstep) h

/-- The lexer reads the literals of the text. -/
theorem literals_of_lex {text : String} {ts : List Token} (h : lex text = some ts) :
    ∃ raws, literals text = some raws ∧ Denote raws (tokenStrings ts) := by
  obtain ⟨s, hs, hend⟩ := Option.bind_eq_some_iff.1 h
  have hstart : Matches ⟨.gap, []⟩ ⟨.code, []⟩ := ⟨.gap, .nil⟩
  obtain ⟨hmode, hraws⟩ := lexAll_matches text.toList hstart hs
  unfold literals
  generalize scanAll ⟨.code, []⟩ text.toList = r at hmode hraws
  rcases s with ⟨lexeme, tokens⟩
  rcases r with ⟨mode, raws⟩
  refine ⟨raws, ?_⟩
  -- a text cannot end inside a string or a symbol
  cases hmode with
  | gap =>
      obtain rfl := Option.some.inj hend
      exact ⟨rfl, hraws⟩
  | ident acc =>
      obtain rfl := Option.some.inj hend
      refine ⟨rfl, ?_⟩
      rw [tokenStrings_append]
      simpa [tokenStrings] using hraws
  | comment =>
      obtain rfl := Option.some.inj hend
      exact ⟨rfl, hraws⟩
  | str _ => cases hend
  | esc _ => cases hend
  | slash => cases hend
  | double _ _ => cases hend

/-! ## The parser -/

def Level.strings (l : Level) : List String :=
  l.ors.toList.flatMap Expr.strings ++ l.ands.toList.flatMap Expr.strings

def Focus.strings : Focus → List String
  | .operand => []
  | .contextDot => []
  | .attrName => []
  | .member e => e.strings
  | .method e => e.strings
  | .methodOpen e => e.strings
  | .methodArg e => e.strings
  | .methodClose e s => e.strings ++ [s]
  | .eqRight e => e.strings
  | .relation e => e.strings

/-- The literals of the open expressions, the outermost first. -/
def openStrings (outer : List Level) (l : Level) (f : Focus) : List String :=
  outer.reverse.flatMap Level.strings ++ l.strings ++ f.strings

/-- The literals of the policy the parser stands in. -/
def Pos.strings : Pos → List String
  | .start as => as.map Prod.snd
  | .annotationName as => as.map Prod.snd
  | .annotationOpen as _ => as.map Prod.snd
  | .annotationArg as _ => as.map Prod.snd
  | .annotationClose as _ v => as.map Prod.snd ++ [v]
  | .scopeOpen p => p.strings
  | .principal p => p.strings
  | .principalComma p => p.strings
  | .action p => p.strings
  | .actionEnd p => p.strings
  | .actionType p => p.strings
  | .actionColons p _ => p.strings
  | .actionId p _ => p.strings
  | .actionComma p => p.strings
  | .resource p => p.strings
  | .scopeClose p => p.strings
  | .conditions p => p.strings
  | .whenOpen p => p.strings
  | .expr p outer l f => p.strings ++ openStrings outer l f

/-- The literals the parser has kept. -/
def Parser.strings (s : Parser) : List String :=
  s.policies.flatMap Policy.strings ++ s.pos.strings

/-- Before its action is read a policy has no action and no condition. -/
def Pos.Shape : Pos → Prop
  | .scopeOpen p => p.action = none ∧ p.conditions = []
  | .principal p => p.action = none ∧ p.conditions = []
  | .principalComma p => p.action = none ∧ p.conditions = []
  | .action p => p.action = none ∧ p.conditions = []
  | .actionEnd p => p.action = none ∧ p.conditions = []
  | .actionType p => p.action = none ∧ p.conditions = []
  | .actionColons p _ => p.action = none ∧ p.conditions = []
  | .actionId p _ => p.action = none ∧ p.conditions = []
  | _ => True

theorem strings_negate (n : Nat) (e : Expr) : (negate n e).strings = e.strings := by
  induction n with
  | zero => rfl
  | succ n ih => exact ih

theorem strings_complete {f : Focus} {l : Level} {e : Expr} (h : f.complete l = some e) :
    e.strings = f.strings := by
  cases f with
  | member e' =>
      obtain rfl := Option.some.inj h
      exact strings_negate l.nots e'
  | relation e' =>
      obtain rfl := Option.some.inj h
      rfl
  | _ => cases h

theorem strings_conjunction (l : Level) (e : Expr) :
    (l.conjunction e).strings = l.ands.toList.flatMap Expr.strings ++ e.strings := by
  rcases l with ⟨ors, ands, nots⟩
  cases ands with
  | none => rfl
  | some a => simp [Level.conjunction, Expr.strings]

theorem strings_value (l : Level) (e : Expr) :
    (l.value e).strings = l.strings ++ e.strings := by
  rcases l with ⟨ors, ands, nots⟩
  cases ors with
  | none => simp [Level.value, Level.strings, strings_conjunction]
  | some o => simp [Level.value, Level.strings, strings_conjunction, Expr.strings]

/-- A token inside an expression. -/
theorem exprStep_strings {p : Policy} {outer : List Level} {l : Level} {f : Focus} {t : Token}
    {pos : Pos} (h : exprStep p outer l f t = some pos) :
    pos.Shape ∧ pos.strings = p.strings ++ openStrings outer l f ++ tokenStrings [t] := by
  unfold exprStep at h
  split at h
  case h_13 =>
    -- `&&` completes a conjunct.
    obtain ⟨e, he, rfl⟩ := Option.map_eq_some_iff.1 h
    simp [Pos.Shape, Pos.strings, openStrings, Level.strings, Focus.strings, tokenStrings,
      strings_conjunction, strings_complete he]
  case h_14 =>
    -- `||` completes a disjunct.
    obtain ⟨e, he, rfl⟩ := Option.map_eq_some_iff.1 h
    simp [Pos.Shape, Pos.strings, openStrings, Level.strings, Focus.strings, tokenStrings,
      strings_value, strings_complete he]
  case h_15 =>
    -- A parenthesis completes the level inside it.
    obtain ⟨e, he, h⟩ := Option.bind_eq_some_iff.1 h
    split at h
    · cases h
    · obtain rfl := Option.some.inj h
      simp [Pos.Shape, Pos.strings, openStrings, Focus.strings, tokenStrings, strings_value,
        strings_complete he]
  case h_16 =>
    -- A brace completes the condition.
    obtain ⟨e, he, h⟩ := Option.bind_eq_some_iff.1 h
    split at h
    · obtain rfl := Option.some.inj h
      simp [Pos.Shape, Pos.strings, openStrings, tokenStrings, Policy.strings, strings_value,
        strings_complete he]
    · cases h
  case h_17 => cases h
  all_goals
    obtain rfl := Option.some.inj h
    simp [Pos.Shape, Pos.strings, openStrings, Level.strings, Level.empty, Focus.strings,
      tokenStrings, Expr.strings, strings_negate]

/-- **The parser loses no literal.** -/
theorem parseStep_strings {s s' : Parser} {t : Token} (hs : s.pos.Shape)
    (h : parseStep s t = some s') :
    s'.pos.Shape ∧ s'.strings = s.strings ++ tokenStrings [t] := by
  rcases s with ⟨done, pos⟩
  unfold parseStep at h
  split at h
  case h_16 p ty id hpos =>
    -- The action is the first literal of the scope.
    subst hpos
    obtain rfl := Option.some.inj h
    obtain ⟨haction, hconditions⟩ := hs
    simp [Pos.Shape, Parser.strings, Pos.strings, Policy.strings, tokenStrings, haction,
      hconditions]
  case h_23 p outer l f hpos =>
    subst hpos
    obtain ⟨pos, hstep, rfl⟩ := Option.map_eq_some_iff.1 h
    obtain ⟨hshape, hstrings⟩ := exprStep_strings hstep
    refine ⟨hshape, ?_⟩
    rw [Parser.strings, hstrings, ← List.append_assoc]
    rfl
  case h_24 => cases h
  all_goals
    rename_i hpos
    subst hpos
    obtain rfl := Option.some.inj h
    revert hs
    simp [Pos.Shape, Parser.strings, Pos.strings, Policy.open, Policy.strings, openStrings,
      Level.strings, Level.empty, Focus.strings, tokenStrings]

/-- The parser loses no literal, by induction on the tokens. -/
theorem parseTokens_strings (ts : List Token) :
    ∀ {s s' : Parser}, s.pos.Shape → parseTokens s ts = some s' →
      s'.strings = s.strings ++ tokenStrings ts := by
  induction ts with
  | nil =>
      intro s s' _ h
      obtain rfl := Option.some.inj h
      exact (List.append_nil _).symm
  | cons t ts ih =>
      intro s s' hs h
      obtain ⟨s₁, hstep, h⟩ := Option.bind_eq_some_iff.1 h
      obtain ⟨hs₁, hstrings⟩ := parseStep_strings hs hstep
      rw [ih hs₁ h, hstrings, List.append_assoc, ← tokenStrings_append]
      rfl

/-- **The literals of a text are those of its policies.** -/
theorem literals_of_parsePolicies {text : String} {ps : List Policy}
    (h : parsePolicies text = some ps) :
    ∃ raws, literals text = some raws ∧ Denote raws (ps.flatMap Policy.strings) := by
  obtain ⟨ts, hlex, h⟩ := Option.bind_eq_some_iff.1 h
  obtain ⟨s, hparse, hend⟩ := Option.bind_eq_some_iff.1 h
  obtain ⟨raws, hraws, hden⟩ := literals_of_lex hlex
  have hstart : (Pos.start []).Shape := trivial
  have hstrings := parseTokens_strings (s := ⟨[], .start []⟩) ts hstart hparse
  rcases s with ⟨done, pos⟩
  unfold parseEnd at hend
  split at hend
  · rename_i hpos
    obtain rfl := Option.some.inj hend
    have hdone : done.flatMap Policy.strings = tokenStrings ts := by
      simpa [Parser.strings, Pos.strings, show pos = .start [] from hpos] using hstrings
    refine ⟨raws, hraws, ?_⟩
    rw [hdone]
    exact hden
  · cases hend

/-- The reference engine shows its policies. -/
theorem Engine.reference_showsSources :
    ShowsSources Engine.reference fun ps => ps.map Policy.source where
  grammar := by
    intro text set ps hset hps
    simp only [Engine.reference, hps] at hset
    rw [Except.ok.inj hset]
  literals := by
    intro text set hset
    simp only [Engine.reference] at hset
    split at hset
    · rename_i ps hps
      obtain ⟨raws, hraws, hden⟩ := literals_of_parsePolicies hps
      obtain rfl := Except.ok.inj hset
      refine ⟨raws, hraws, ?_⟩
      rw [List.flatMap_map]
      exact hden
    · cases hset

end Paac.Cedar
