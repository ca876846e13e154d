import Paac.Library.Cedar.Syntax

set_option autoImplicit false

/-!
# Printing policies

A printer for policies whose condition is a conjunction of comparisons, disjunctions of atoms and
negated disjunctions, in the layout of generated policy files. Reading the printed text gives the
policies back, provided no name needs an escape.

The lexer is followed text by text. `LexesTo` says which tokens a text has when it ends at a gap;
`LexesBefore` says it of a text whose last token is still open, so that what follows must start
fresh. The parser is followed token by token from a position on the stack of open parentheses:
`Focus.Stands` says that it stands behind an operand or a comparison, so that any connective,
bracket or brace may follow. Lexer and parser are thus never unfolded on a whole policy.

## Main results

- `LexesBefore.append`, `LexesTo.append_before`: how the two compose.
- `Atom.lexesBefore`, `Factor.lexesBefore`, `Printable.lexesTo`: the tokens of a printed policy,
  from its atoms up.
- `parse_disjunction`, `parse_conjunction`, `parse_printable`: the parser on these tokens, by
  induction on the disjuncts and on the factors.
- `parsePolicies_printFile`: the file reads back as its policies.
-/

namespace Paac.Cedar

/-! ## Atoms and factors -/

/-- Conditions without a connective. -/
inductive Atom where
  /-- `context.name` -/
  | flag (name : String)
  /-- `context.name == "s"` -/
  | eq (name s : String)
  /-- `context.name.contains("s")` -/
  | has (name s : String)
  deriving DecidableEq, Repr

/-- The printed atom. -/
def Atom.text : Atom → String
  | .flag name => "context." ++ name
  | .eq name s => "context." ++ name ++ " == \"" ++ s ++ "\""
  | .has name s => "context." ++ name ++ ".contains(\"" ++ s ++ "\")"

/-- The expression meant. -/
def Atom.expr : Atom → Expr
  | .flag name => .attr name
  | .eq name s => .eqStr (.attr name) s
  | .has name s => .containsStr (.attr name) s

/-- The tokens of the printed atom. -/
def Atom.tokens : Atom → List Token
  | .flag name => [.ident "context", .sym ".", .ident name]
  | .eq name s => [.ident "context", .sym ".", .ident name, .sym "==", .str s]
  | .has name s =>
      [.ident "context", .sym ".", .ident name, .sym ".", .ident "contains", .sym "(", .str s,
        .sym ")"]

/-- An identifier: a letter or underscore, then letters, digits and underscores. -/
def isIdentifier (s : String) : Bool :=
  match s.toList with
  | [] => false
  | c :: cs => (c.isAlpha || c = '_') && cs.all isIdentChar

/-- The attribute name is an identifier and the literal needs no escape. -/
def Atom.plain : Atom → Bool
  | .flag name => isIdentifier name
  | .eq name s => isIdentifier name && isPlain s
  | .has name s => isIdentifier name && isPlain s

/-- The conjuncts of a printed condition. -/
inductive Factor where
  | atom (a : Atom)
  /-- `(a || b || ...)` -/
  | any (a : Atom) (as : List Atom)
  /-- `!(a || b || ...)` -/
  | none (a : Atom) (as : List Atom)
  deriving DecidableEq, Repr

/-- Atoms between `||`. -/
def disjunctionText (a : Atom) (as : List Atom) : String :=
  Text.join " || " ((a :: as).map Atom.text)

/-- The tokens of atoms between `||`. -/
def disjunctionTokens (a : Atom) (as : List Atom) : List Token :=
  a.tokens ++ as.flatMap fun b => .sym "||" :: b.tokens

/-- The printed factor. -/
def Factor.text : Factor → String
  | .atom a => a.text
  | .any a as => "(" ++ disjunctionText a as ++ ")"
  | .none a as => "!(" ++ disjunctionText a as ++ ")"

/-- The expression meant. -/
def Factor.expr : Factor → Expr
  | .atom a => a.expr
  | .any a as => orAll a.expr (as.map Atom.expr)
  | .none a as => .not (orAll a.expr (as.map Atom.expr))

/-- The tokens of the printed factor. -/
def Factor.tokens : Factor → List Token
  | .atom a => a.tokens
  | .any a as => .sym "(" :: (disjunctionTokens a as ++ [.sym ")"])
  | .none a as => .sym "!" :: .sym "(" :: (disjunctionTokens a as ++ [.sym ")"])

/-- All atoms of the factor are plain. -/
def Factor.plain : Factor → Bool
  | .atom a => a.plain
  | .any a as => a.plain && as.all Atom.plain
  | .none a as => a.plain && as.all Atom.plain

/-! ## Policies -/

/-- A policy to print: its id, effect, action and the factors of its condition. -/
structure Printable where
  id : String
  effect : Effect
  action : String
  first : Factor
  factors : List Factor

/-- The keyword of an effect. -/
def Effect.word : Effect → String
  | .permit => "permit"
  | .forbid => "forbid"

/-- The printed condition. -/
def Printable.condition (p : Printable) : String :=
  Text.join " &&\n  " ((p.first :: p.factors).map Factor.text)

/-- The printed policy. -/
def Printable.text (p : Printable) : String :=
  "@id(\"" ++ p.id ++ "\")\n" ++ p.effect.word ++
    " (\n  principal,\n  action == Action::\"" ++ p.action ++ "\",\n  resource\n) when \x7b\n  " ++
    p.condition ++ "\n\x7d;\n"

/-- The policy meant. -/
def Printable.policy (p : Printable) : Policy :=
  ⟨[("id", p.id)], p.effect, some ⟨"Action", p.action⟩,
    [andAll p.first.expr (p.factors.map Factor.expr)]⟩

/-- No name of the policy needs an escape. -/
def Printable.plain (p : Printable) : Bool :=
  isPlain p.id && isPlain p.action && p.first.plain && p.factors.all Factor.plain

/-! ## Lexing printed text -/

/-- The tokens read so far do not influence a step. -/
theorem lexStep_prefix (ts₀ : List Token) (s : Lexer) (c : Char) :
    lexStep ⟨s.lexeme, ts₀ ++ s.tokens⟩ c =
      (lexStep s c).map fun s' => ⟨s'.lexeme, ts₀ ++ s'.tokens⟩ := by
  -- a step between tokens only adds to the tokens behind
  have hgap : ∀ ts, stepGap c (ts₀ ++ ts) =
      (stepGap c ts).map fun s' => ⟨s'.lexeme, ts₀ ++ s'.tokens⟩ := by
    intro ts
    simp only [stepGap]
    split_ifs <;> simp
  rcases s with ⟨lexeme, ts⟩
  cases lexeme with
  | gap => exact hgap ts
  | ident acc =>
      simp only [lexStep, List.append_assoc, hgap]
      split_ifs <;> simp
  | str acc =>
      simp only [lexStep]
      split_ifs <;> simp
  | esc acc =>
      simp only [lexStep]
      cases simpleEscape c <;> rfl
  | slash =>
      simp only [lexStep]
      split_ifs <;> simp
  | comment =>
      simp only [lexStep]
      split_ifs <;> simp
  | double d =>
      simp only [lexStep]
      split_ifs <;> simp

/-- Tokens that are there already stay in front. -/
theorem lexAll_prefix (ts₀ : List Token) (cs : List Char) :
    ∀ s : Lexer, lexAll ⟨s.lexeme, ts₀ ++ s.tokens⟩ cs =
      (lexAll s cs).map fun s' => ⟨s'.lexeme, ts₀ ++ s'.tokens⟩ := by
  induction cs with
  | nil => intro s; rfl
  | cons c cs ih =>
      intro s
      simp only [lexAll, lexStep_prefix]
      cases h : lexStep s c with
      | none => rfl
      | some s' => exact ih s'

/-- A text without parameters lexes as a computation says. -/
theorem lexesTo_of_run {text : String} {ts : List Token}
    (h : lexAll ⟨.gap, []⟩ text.toList = some ⟨.gap, ts⟩) : LexesTo text ts := by
  intro ts₀
  have hrun := lexAll_prefix ts₀ text.toList ⟨.gap, []⟩
  rw [h] at hrun
  simpa using hrun

/-- The text yields the tokens `ts` as soon as a character follows that continues no
identifier. -/
def LexesBefore (text : String) (ts : List Token) : Prop :=
  ∀ (ts₀ : List Token) (c : Char) (rest : List Char), isIdentChar c = false →
    lexAll ⟨.gap, ts₀⟩ (text.toList ++ (c :: rest)) = lexAll ⟨.gap, ts₀ ++ ts⟩ (c :: rest)

theorem LexesTo.before {text : String} {ts : List Token} (h : LexesTo text ts) :
    LexesBefore text ts := by
  intro ts₀ c rest _
  rw [lexAll_append, h ts₀, Option.bind_some]

theorem LexesTo.append_before {a b : String} {ts ts' : List Token} (h : LexesTo a ts)
    (h' : LexesBefore b ts') : LexesBefore (a ++ b) (ts ++ ts') := by
  intro ts₀ c rest hc
  rw [String.toList_append, List.append_assoc, lexAll_append, h ts₀, Option.bind_some,
    h' _ c rest hc, List.append_assoc]

/-- The text does not start inside an identifier. -/
def StartsFresh (text : String) : Prop :=
  ∃ c cs, text.toList = c :: cs ∧ isIdentChar c = false

theorem StartsFresh.append {a : String} (h : StartsFresh a) (b : String) : StartsFresh (a ++ b) := by
  obtain ⟨c, cs, hcs, hc⟩ := h
  exact ⟨c, cs ++ b.toList, by rw [String.toList_append, hcs, List.cons_append], hc⟩

theorem LexesBefore.append {a b : String} {ts ts' : List Token} (h : LexesBefore a ts)
    (hb : StartsFresh b) (h' : LexesTo b ts') : LexesTo (a ++ b) (ts ++ ts') := by
  obtain ⟨c, cs, hcs, hc⟩ := hb
  intro ts₀
  rw [String.toList_append, hcs, h ts₀ c cs hc, ← hcs, h', List.append_assoc]

/-- Two texts with open last tokens, the second one fresh. -/
theorem LexesBefore.append_before {a b : String} {ts ts' : List Token} (h : LexesBefore a ts)
    (hb : StartsFresh b) (h' : LexesBefore b ts') : LexesBefore (a ++ b) (ts ++ ts') := by
  obtain ⟨c, cs, hcs, hc⟩ := hb
  intro ts₀ d rest hd
  have hmid : lexAll ⟨.gap, ts₀⟩ (a.toList ++ (b.toList ++ (d :: rest))) =
      lexAll ⟨.gap, ts₀ ++ ts⟩ (b.toList ++ (d :: rest)) := by
    rw [hcs, List.cons_append]
    exact h ts₀ c (cs ++ d :: rest) hc
  rw [String.toList_append, List.append_assoc, hmid, h' _ d rest hd, List.append_assoc]

/-- A letter starts an identifier. -/
theorem stepGap_identStart {c : Char} (h : (c.isAlpha || c = '_') = true) (ts : List Token) :
    stepGap c ts = some ⟨.ident [c], ts⟩ := by
  have hcases : (65 ≤ c.toNat ∧ c.toNat ≤ 90) ∨ (97 ≤ c.toNat ∧ c.toNat ≤ 122) ∨ c = '_' := by
    simp only [Char.isAlpha, Char.isUpper, Char.isLower, Bool.or_eq_true, Bool.and_eq_true,
      decide_eq_true_eq, UInt32.le_iff_toNat_le] at h
    rcases h with (h | h) | h
    · exact Or.inl h
    · exact Or.inr (Or.inl h)
    · exact Or.inr (Or.inr h)
  -- no other branch of the scanner takes a letter or an underscore
  have hspace : Text.isWhitespace c = false := by
    rcases hcases with h | h | rfl
    · simp only [Text.isWhitespace]
      simp only [Bool.or_eq_false_iff, Bool.and_eq_false_iff, decide_eq_false_iff_not,
        beq_eq_false_iff_ne]
      omega
    · simp only [Text.isWhitespace]
      simp only [Bool.or_eq_false_iff, Bool.and_eq_false_iff, decide_eq_false_iff_not,
        beq_eq_false_iff_ne]
      omega
    · rfl
  have hquote : ¬c = '"' := by
    rintro rfl
    revert h
    decide
  have hslash : ¬c = '/' := by
    rintro rfl
    revert h
    decide
  simp only [stepGap, hspace, Bool.false_eq_true, if_false, hquote, hslash, h, if_true]

/-- Letters and digits continue an identifier. -/
theorem lexAll_identChars (cs rest : List Char) (ts : List Token)
    (h : cs.all isIdentChar = true) :
    ∀ acc : List Char, lexAll ⟨.ident acc, ts⟩ (cs ++ rest) =
      lexAll ⟨.ident (acc ++ cs), ts⟩ rest := by
  induction cs with
  | nil => intro acc; simp
  | cons c cs ih =>
      intro acc
      rw [List.all_cons, Bool.and_eq_true] at h
      have hstep : lexAll ⟨.ident acc, ts⟩ ((c :: cs) ++ rest) =
          lexAll ⟨.ident (acc ++ [c]), ts⟩ (cs ++ rest) := by
        simp [lexAll, lexStep, h.1]
      rw [hstep, ih h.2, List.append_assoc, List.singleton_append]

/-- An identifier is one token. -/
theorem lexesBefore_identifier {s : String} (h : isIdentifier s = true) :
    LexesBefore s [.ident s] := by
  intro ts₀ c rest hc
  unfold isIdentifier at h
  split at h
  · cases h
  · rename_i d cs hs
    rw [Bool.and_eq_true] at h
    have hname : String.ofList (d :: cs) = s := by rw [← hs, String.ofList_toList]
    have hopen : lexAll ⟨.gap, ts₀⟩ ((d :: cs) ++ (c :: rest)) =
        lexAll ⟨.ident [d], ts₀⟩ (cs ++ (c :: rest)) := by
      simp [lexAll, lexStep, stepGap_identStart h.1]
    have hclose : lexAll ⟨.ident (d :: cs), ts₀⟩ (c :: rest) =
        lexAll ⟨.gap, ts₀ ++ [.ident s]⟩ (c :: rest) := by
      simp [lexAll, lexStep, hc, hname]
    rw [hs, hopen, lexAll_identChars cs _ ts₀ h.2, List.singleton_append, hclose]

/-- The tokens of a printed comparison. -/
theorem Atom.lexesBefore {a : Atom} (h : a.plain = true) : LexesBefore a.text a.tokens := by
  have hcontext : LexesTo "context." [.ident "context", .sym "."] := lexesTo_of_run rfl
  -- the name ends at the character behind it, which continues no identifier
  cases a with
  | flag name => exact hcontext.append_before (lexesBefore_identifier h)
  | eq name s =>
      rw [Atom.plain, Bool.and_eq_true] at h
      have htext : (Atom.eq name s).text =
          "context." ++ (name ++ (" == " ++ ("\"" ++ s ++ "\""))) := by
        have hsplit : " == \"" = " == " ++ "\"" := rfl
        simp only [Atom.text, hsplit, String.append_assoc]
      have heq : LexesTo " == " [.sym "=="] := lexesTo_of_run rfl
      have hright := heq.append (lexesTo_quoted h.2)
      have hleft := (lexesBefore_identifier h.1).append
        (StartsFresh.append ⟨' ', _, rfl, rfl⟩ _) hright
      rw [htext]
      exact (hcontext.append hleft).before
  | has name s =>
      rw [Atom.plain, Bool.and_eq_true] at h
      have htext : (Atom.has name s).text =
          "context." ++ (name ++ (".contains(" ++ (("\"" ++ s ++ "\"") ++ ")"))) := by
        have hsplit : ".contains(\"" = ".contains(" ++ "\"" := rfl
        have hsplit' : "\")" = "\"" ++ ")" := rfl
        simp only [Atom.text, hsplit, hsplit', String.append_assoc]
      have hcall : LexesTo ".contains(" [.sym ".", .ident "contains", .sym "("] :=
        lexesTo_of_run rfl
      have hclose : LexesTo ")" [.sym ")"] := lexesTo_of_run rfl
      have hright := hcall.append ((lexesTo_quoted h.2).append hclose)
      have hleft := (lexesBefore_identifier h.1).append
        (StartsFresh.append ⟨'.', _, rfl, rfl⟩ _) hright
      rw [htext]
      exact (hcontext.append hleft).before

/-- The tokens of a printed disjunction. -/
theorem lexesBefore_disjunction (as : List Atom) :
    ∀ a : Atom, a.plain = true → as.all Atom.plain = true →
      LexesBefore (disjunctionText a as) (disjunctionTokens a as) := by
  induction as with
  | nil =>
      intro a ha _
      rw [disjunctionText, List.map_singleton, Text.join_singleton, disjunctionTokens,
        List.flatMap_nil, List.append_nil]
      exact Atom.lexesBefore ha
  | cons b bs ih =>
      intro a ha hbs
      rw [List.all_cons, Bool.and_eq_true] at hbs
      have hor : LexesTo " || " [.sym "||"] := lexesTo_of_run rfl
      have htail := hor.append_before (ih b hbs.1 hbs.2)
      have htext : disjunctionText a (b :: bs) = a.text ++ (" || " ++ disjunctionText b bs) :=
        Text.join_cons_cons _ _ _ _
      have htokens : disjunctionTokens a (b :: bs) =
          a.tokens ++ ([.sym "||"] ++ disjunctionTokens b bs) := by
        simp [disjunctionTokens]
      rw [htext, htokens]
      -- the blank before the bars ends the atom's last token
      exact (Atom.lexesBefore ha).append_before
        (StartsFresh.append ⟨' ', _, rfl, rfl⟩ _) htail

/-- The tokens of a printed factor. -/
theorem Factor.lexesBefore {f : Factor} (h : f.plain = true) : LexesBefore f.text f.tokens := by
  have hclose : LexesTo ")" [.sym ")"] := lexesTo_of_run rfl
  cases f with
  | atom a => exact Atom.lexesBefore h
  | any a as =>
      rw [Factor.plain, Bool.and_eq_true] at h
      have hopen : LexesTo "(" [.sym "("] := lexesTo_of_run rfl
      have hbody := (lexesBefore_disjunction as a h.1 h.2).append ⟨')', _, rfl, rfl⟩ hclose
      have htext : (Factor.any a as).text = "(" ++ (disjunctionText a as ++ ")") := by
        rw [Factor.text, String.append_assoc]
      rw [htext]
      exact (hopen.append hbody).before
  | none a as =>
      rw [Factor.plain, Bool.and_eq_true] at h
      have hopen : LexesTo "!(" [.sym "!", .sym "("] := lexesTo_of_run rfl
      have hbody := (lexesBefore_disjunction as a h.1 h.2).append ⟨')', _, rfl, rfl⟩ hclose
      have htext : (Factor.none a as).text = "!(" ++ (disjunctionText a as ++ ")") := by
        rw [Factor.text, String.append_assoc]
      rw [htext]
      exact (hopen.append hbody).before

/-- The tokens of factors between `&&`. -/
def conjunctionTokens (f : Factor) (fs : List Factor) : List Token :=
  f.tokens ++ fs.flatMap fun g => .sym "&&" :: g.tokens

/-- The tokens of a printed conjunction, one factor a line. -/
theorem lexesBefore_conjunction (fs : List Factor) :
    ∀ f : Factor, f.plain = true → fs.all Factor.plain = true →
      LexesBefore (Text.join " &&\n  " ((f :: fs).map Factor.text)) (conjunctionTokens f fs) := by
  induction fs with
  | nil =>
      intro f hf _
      rw [List.map_singleton, Text.join_singleton, conjunctionTokens, List.flatMap_nil,
        List.append_nil]
      exact Factor.lexesBefore hf
  | cons g gs ih =>
      intro f hf hgs
      rw [List.all_cons, Bool.and_eq_true] at hgs
      have hand : LexesTo " &&\n  " [.sym "&&"] := lexesTo_of_run rfl
      have htail := hand.append_before (ih g hgs.1 hgs.2)
      have htokens : conjunctionTokens f (g :: gs) =
          f.tokens ++ ([.sym "&&"] ++ conjunctionTokens g gs) := by
        simp [conjunctionTokens]
      rw [htokens, List.map_cons, List.map_cons, Text.join_cons_cons]
      exact (Factor.lexesBefore hf).append_before
        (StartsFresh.append ⟨' ', _, rfl, rfl⟩ _) htail

/-- The tokens of a printed policy. -/
def Printable.tokens (p : Printable) : List Token :=
  ([.sym "@", .ident "id", .sym "(", .str p.id, .sym ")", .ident p.effect.word, .sym "(",
    .ident "principal", .sym ",", .ident "action", .sym "==", .ident "Action", .sym "::",
    .str p.action, .sym ",", .ident "resource", .sym ")", .ident "when", .sym "\x7b"] :
    List Token) ++ (conjunctionTokens p.first p.factors ++ [.sym "\x7d", .sym ";"])

/-- The tokens of a printed policy. -/
theorem Printable.lexesTo {p : Printable} (h : p.plain = true) : LexesTo p.text p.tokens := by
  simp only [Printable.plain, Bool.and_eq_true] at h
  obtain ⟨⟨⟨hid, haction⟩, hfirst⟩, hfactors⟩ := h
  have hat : LexesTo "@id(" [.sym "@", .ident "id", .sym "("] := lexesTo_of_run rfl
  have hscope : LexesTo (")\n" ++ (p.effect.word ++ " (\n  principal,\n  action == Action::"))
      [.sym ")", .ident p.effect.word, .sym "(", .ident "principal", .sym ",", .ident "action",
        .sym "==", .ident "Action", .sym "::"] := by
    cases p.effect with
    | permit => exact lexesTo_of_run rfl
    | forbid => exact lexesTo_of_run rfl
  have hwhen : LexesTo ",\n  resource\n) when \x7b\n  "
      [.sym ",", .ident "resource", .sym ")", .ident "when", .sym "\x7b"] := lexesTo_of_run rfl
  have hend : LexesTo "\n\x7d;\n" [.sym "\x7d", .sym ";"] := lexesTo_of_run rfl
  have hcondition := (lexesBefore_conjunction p.factors p.first hfirst hfactors).append
    ⟨'\n', _, rfl, rfl⟩ hend
  -- the text cut where its tokens meet
  have htext : p.text = "@id(" ++ (("\"" ++ p.id ++ "\"") ++
      ((")\n" ++ (p.effect.word ++ " (\n  principal,\n  action == Action::")) ++
        (("\"" ++ p.action ++ "\"") ++ (",\n  resource\n) when \x7b\n  " ++
          (Text.join " &&\n  " ((p.first :: p.factors).map Factor.text) ++ "\n\x7d;\n"))))) := by
    have h₁ : "@id(\"" = "@id(" ++ "\"" := rfl
    have h₂ : "\")\n" = "\"" ++ ")\n" := rfl
    have h₃ : " (\n  principal,\n  action == Action::\"" =
        " (\n  principal,\n  action == Action::" ++ "\"" := rfl
    have h₄ : "\",\n  resource\n) when \x7b\n  " = "\"" ++ ",\n  resource\n) when \x7b\n  " := rfl
    simp only [Printable.text, Printable.condition, h₁, h₂, h₃, h₄, String.append_assoc]
  rw [htext]
  exact hat.append ((lexesTo_quoted hid).append
    (hscope.append ((lexesTo_quoted haction).append (hwhen.append hcondition))))

/-! ## Parsing printed tokens -/

/-- Behind an operand or a comparison that reads as `e`. -/
def Focus.Stands (f : Focus) (e : Expr) : Prop := f = .member e ∨ f = .relation e

/-- The parser reads a comparison. -/
theorem parse_atom (a : Atom) (done : List Policy) (p : Policy) (outer : List Level) {l : Level}
    (hl : l.nots = 0) : ∃ f : Focus, f.Stands a.expr ∧
      parseTokens ⟨done, .expr p outer l .operand⟩ a.tokens = some ⟨done, .expr p outer l f⟩ := by
  rcases l with ⟨ors, ands, nots⟩
  obtain rfl : nots = 0 := hl
  cases a with
  | flag name => exact ⟨_, Or.inl rfl, rfl⟩
  | eq name s => exact ⟨_, Or.inr rfl, rfl⟩
  | has name s => exact ⟨_, Or.inl rfl, rfl⟩

/-- Behind an expression `||` opens the next disjunct. -/
theorem step_or {f : Focus} {e : Expr} (hf : f.Stands e) (done : List Policy) (p : Policy)
    (outer : List Level) {l : Level} (hl : l.nots = 0) :
    parseStep ⟨done, .expr p outer l f⟩ (.sym "||") =
      some ⟨done, .expr p outer ⟨some (l.value e), none, 0⟩ .operand⟩ := by
  rcases l with ⟨ors, ands, nots⟩
  obtain rfl : nots = 0 := hl
  rcases hf with rfl | rfl
  · rfl
  · rfl

/-- A closing parenthesis makes an operand of the disjunction inside. -/
theorem step_close {f : Focus} {e : Expr} (hf : f.Stands e) (done : List Policy) (p : Policy)
    (l' : Level) (outer : List Level) {l : Level} (hl : l.nots = 0) :
    parseStep ⟨done, .expr p (l' :: outer) l f⟩ (.sym ")") =
      some ⟨done, .expr p outer l' (.member (l.value e))⟩ := by
  rcases l with ⟨ors, ands, nots⟩
  obtain rfl : nots = 0 := hl
  rcases hf with rfl | rfl
  · rfl
  · rfl

/-- Atoms between `||`, up to the closing parenthesis. -/
theorem parse_disjunction (as : List Atom) (done : List Policy) (p : Policy) (l' : Level)
    (outer : List Level) :
    ∀ (a : Atom) {l : Level}, l.nots = 0 → l.ands = none →
      parseTokens ⟨done, .expr p (l' :: outer) l .operand⟩
          (disjunctionTokens a as ++ [.sym ")"]) =
        some ⟨done, .expr p outer l' (.member (orAll (l.value a.expr) (as.map Atom.expr)))⟩ := by
  induction as with
  | nil =>
      intro a l hnots _
      obtain ⟨f, hf, hrun⟩ := parse_atom a done p (l' :: outer) hnots
      rw [disjunctionTokens, List.flatMap_nil, List.append_nil, parseTokens_append, hrun,
        Option.bind_some, parseTokens, step_close hf done p l' outer hnots]
      rfl
  | cons b bs ih =>
      intro a l hnots hands
      obtain ⟨f, hf, hrun⟩ := parse_atom a done p (l' :: outer) hnots
      have htokens : disjunctionTokens a (b :: bs) ++ [.sym ")"] =
          a.tokens ++ (.sym "||" :: (disjunctionTokens b bs ++ [.sym ")"])) := by
        simp [disjunctionTokens]
      have hnext := ih b (l := ⟨some (l.value a.expr), none, 0⟩) rfl rfl
      rw [htokens, parseTokens_append, hrun, Option.bind_some, parseTokens,
        step_or hf done p (l' :: outer) hnots, Option.bind_some, hnext]
      rfl

/-- The parser reads a factor, a negated one with its mark. -/
theorem parse_factor (g : Factor) (done : List Policy) (p : Policy) {l : Level}
    (hl : l.nots = 0) : ∃ (n : Nat) (f : Focus),
      (∃ e, f.Stands e) ∧ f.complete { l with nots := n } = some g.expr ∧
      parseTokens ⟨done, .expr p [] l .operand⟩ g.tokens =
        some ⟨done, .expr p [] { l with nots := n } f⟩ := by
  cases g with
  | atom a =>
      obtain ⟨f, hf, hrun⟩ := parse_atom a done p [] hl
      have hlevel : { l with nots := 0 } = l := by rw [← hl]
      refine ⟨0, f, ⟨_, hf⟩, ?_, by rw [hlevel]; exact hrun⟩
      rcases hf with rfl | rfl
      · rfl
      · rfl
  | any a as =>
      have hbody := parse_disjunction as done p l [] a (l := .empty) rfl rfl
      have hlevel : { l with nots := 0 } = l := by rw [← hl]
      refine ⟨0, .member (orAll a.expr (as.map Atom.expr)), ⟨_, Or.inl rfl⟩, rfl, ?_⟩
      rw [hlevel]
      exact hbody
  | none a as =>
      have hbody := parse_disjunction as done p { l with nots := 1 } [] a (l := .empty) rfl rfl
      rcases l with ⟨ors, ands, nots⟩
      obtain rfl : nots = 0 := hl
      exact ⟨1, .member (orAll a.expr (as.map Atom.expr)), ⟨_, Or.inl rfl⟩, rfl, hbody⟩

/-- A closing brace ends the condition. -/
theorem step_brace {f : Focus} {e : Expr} (hf : f.Stands e) (done : List Policy) (p : Policy)
    (l : Level) : parseStep ⟨done, .expr p [] l f⟩ (.sym "\x7d") =
      ((f.complete l).bind fun e => some (Pos.conditions
        { p with conditions := p.conditions ++ [l.value e] })).map fun pos => ⟨done, pos⟩ := by
  rcases hf with rfl | rfl
  · rfl
  · rfl

/-- Behind a factor `&&` opens the next one. -/
theorem step_and {f : Focus} {e : Expr} (hf : f.Stands e) (done : List Policy) (p : Policy)
    (l : Level) : parseStep ⟨done, .expr p [] l f⟩ (.sym "&&") =
      ((f.complete l).map fun e => Pos.expr p []
        { l with ands := some (l.conjunction e), nots := 0 } .operand).map fun pos =>
          ⟨done, pos⟩ := by
  rcases hf with rfl | rfl
  · rfl
  · rfl

/-- The conjuncts of a condition, up to the closing brace. -/
theorem parse_conjunction (gs : List Factor) (done : List Policy) (p : Policy) :
    ∀ (g : Factor) {l : Level}, l.nots = 0 → l.ors = none →
      parseTokens ⟨done, .expr p [] l .operand⟩ (conjunctionTokens g gs ++ [.sym "\x7d"]) =
        some ⟨done, .conditions { p with conditions := p.conditions ++
          [andAll (l.conjunction g.expr) (gs.map Factor.expr)] }⟩ := by
  induction gs with
  | nil =>
      intro g l hnots hors
      obtain ⟨n, f, ⟨e, hf⟩, hcomplete, hrun⟩ := parse_factor g done p hnots
      have hend : parseStep ⟨done, .expr p [] { l with nots := n } f⟩ (.sym "\x7d") =
          some ⟨done, .conditions { p with conditions := p.conditions ++ [l.conjunction g.expr] }⟩ := by
        have hvalue : Level.value { l with nots := n } g.expr = l.conjunction g.expr := by
          simp [Level.value, hors, Level.conjunction]
        rw [step_brace hf, hcomplete, Option.bind_some, hvalue]
        rfl
      rw [conjunctionTokens, List.flatMap_nil, List.append_nil, parseTokens_append, hrun,
        Option.bind_some, parseTokens, hend]
      rfl
  | cons g' gs ih =>
      intro g l hnots hors
      obtain ⟨n, f, ⟨e, hf⟩, hcomplete, hrun⟩ := parse_factor g done p hnots
      have hand : parseStep ⟨done, .expr p [] { l with nots := n } f⟩ (.sym "&&") =
          some ⟨done, .expr p [] ⟨none, some (l.conjunction g.expr), 0⟩ .operand⟩ := by
        rcases l with ⟨ors, ands, nots⟩
        obtain rfl : ors = none := hors
        rw [step_and hf, hcomplete]
        rfl
      have htokens : conjunctionTokens g (g' :: gs) ++ [.sym "\x7d"] =
          g.tokens ++ (.sym "&&" :: (conjunctionTokens g' gs ++ [.sym "\x7d"])) := by
        simp [conjunctionTokens]
      -- the conjuncts so far are one operand of the next level
      have hnext := ih g' (l := ⟨none, some (l.conjunction g.expr), 0⟩) rfl rfl
      rw [htokens, parseTokens_append, hrun, Option.bind_some, parseTokens, hand,
        Option.bind_some, hnext]
      rfl

/-- **The parser reads a printed policy.** -/
theorem parse_printable (p : Printable) (done : List Policy) :
    parseTokens ⟨done, .start []⟩ p.tokens = some ⟨done ++ [p.policy], .start []⟩ := by
  have hhead : ∀ rest, parseTokens ⟨done, .start []⟩
      (([.sym "@", .ident "id", .sym "(", .str p.id, .sym ")", .ident p.effect.word, .sym "(",
        .ident "principal", .sym ",", .ident "action", .sym "==", .ident "Action", .sym "::",
        .str p.action, .sym ",", .ident "resource", .sym ")", .ident "when", .sym "\x7b"] :
        List Token) ++ rest) =
      parseTokens ⟨done, .expr ⟨[("id", p.id)], p.effect, some ⟨"Action", p.action⟩, []⟩ []
        .empty .operand⟩ rest := by
    intro rest
    cases p.effect with
    | permit => rfl
    | forbid => rfl
  have hsplit : conjunctionTokens p.first p.factors ++ [.sym "\x7d", .sym ";"] =
      (conjunctionTokens p.first p.factors ++ [.sym "\x7d"]) ++ [.sym ";"] := by
    simp
  rw [Printable.tokens, hhead, hsplit, parseTokens_append,
    parse_conjunction p.factors done _ p.first rfl rfl, Option.bind_some]
  rfl

/-! ## Policy files -/

/-- A policy file: a comment line, then each policy behind an empty line's break. -/
def printFile (comment : String) (ps : List Printable) : String :=
  ps.foldl (fun out p => out ++ p.text ++ "\n") ("//" ++ comment ++ "\n")

/-- A comment is passed over up to the end of its line. -/
theorem lexAll_comment (cs : List Char) (h : cs.all (fun c => c ≠ '\n' && c ≠ '\r') = true)
    (ts : List Token) (rest : List Char) :
    lexAll ⟨.comment, ts⟩ (cs ++ ('\n' :: rest)) = lexAll ⟨.gap, ts⟩ rest := by
  induction cs with
  | nil => rfl
  | cons c cs ih =>
      rw [List.all_cons, Bool.and_eq_true, Bool.and_eq_true] at h
      have hc : ¬(c = '\n' ∨ c = '\r') :=
        not_or.2 ⟨of_decide_eq_true h.1.1, of_decide_eq_true h.1.2⟩
      simp only [List.cons_append, lexAll, lexStep, if_neg hc, Option.bind_some]
      exact ih h.2

theorem lexesTo_comment {comment : String}
    (h : comment.toList.all (fun c => c ≠ '\n' && c ≠ '\r') = true) :
    LexesTo ("//" ++ comment ++ "\n") [] := by
  intro ts₀
  rw [String.toList_append, String.toList_append, List.append_assoc, lexAll_append]
  have hopen : lexAll ⟨.gap, ts₀⟩ "//".toList = some ⟨.comment, ts₀⟩ := rfl
  have hend : "\n".toList = '\n' :: [] := rfl
  rw [hopen, Option.bind_some, hend, lexAll_comment _ h, List.append_nil]
  rfl

/-- Appending printed policies to a text that ends between two policies. -/
theorem lexesTo_printed (ps : List Printable) (hps : ps.all Printable.plain = true) :
    ∀ {out : String} {ts : List Token}, LexesTo out ts →
      LexesTo (ps.foldl (fun out p => out ++ p.text ++ "\n") out)
        (ts ++ ps.flatMap Printable.tokens) := by
  induction ps with
  | nil => intro out ts h; simpa using h
  | cons p ps ih =>
      intro out ts h
      rw [List.all_cons, Bool.and_eq_true] at hps
      have hbreak : LexesTo "\n" [] := lexesTo_of_run rfl
      have hstep := (h.append (Printable.lexesTo hps.1)).append hbreak
      rw [List.append_nil] at hstep
      rw [List.foldl_cons, List.flatMap_cons, ← List.append_assoc]
      exact ih hps.2 hstep

/-- The parser reads printed policies one by one. -/
theorem parse_printed (ps : List Printable) :
    ∀ done : List Policy, parseTokens ⟨done, .start []⟩ (ps.flatMap Printable.tokens) =
      some ⟨done ++ ps.map Printable.policy, .start []⟩ := by
  induction ps with
  | nil => intro done; simp [parseTokens]
  | cons p ps ih =>
      intro done
      rw [List.flatMap_cons, parseTokens_append, parse_printable, Option.bind_some, ih,
        List.map_cons, List.append_assoc, List.singleton_append]

/-- **Printing, then parsing.** The policies of a printed file are the policies printed. -/
theorem parsePolicies_printFile {comment : String} {ps : List Printable}
    (hcomment : comment.toList.all (fun c => c ≠ '\n' && c ≠ '\r') = true)
    (hps : ps.all Printable.plain = true) :
    parsePolicies (printFile comment ps) = some (ps.map Printable.policy) := by
  have hlex := (lexesTo_printed ps hps (lexesTo_comment hcomment)).lex_eq
  rw [parsePolicies, printFile, hlex, Option.bind_some, List.nil_append, parse_printed,
    Option.bind_some, List.nil_append]
  rfl

end Paac.Cedar
