import Paac.Policy.Attributes
import Paac.Policy.Names
import Paac.Policy.Validate
import Paac.Library.JsonLayout
import Paac.Library.Cedar.Typing

set_option autoImplicit false

/-!
# The schema of the proxy against the translator

`DEFAULT_CEDAR_SCHEMA_JSON` is read in pieces, line by line. The translator reads an attribute that
it does not declare, the subject id, for a subject constraint that is neither `SELF` nor
`DIRECT_REPORTS`; so a text with a literal subject parses, is translated, and is refused by the
validator.

The schema text is the one of the source. What it declares is not assumed but read: its lines are
given as pieces of a laid-out text, and the JSON reader is followed over them. Types are then
checked on compiled policies, conjunct by conjunct. That a generated text is within the limits of
the engine (no annotation twice, no reserved word, few negations) is proved for all records; a
carriage return in a name is the one way past them, and is part of the condition.

## Main results

- `laidOut_schema`: the schema text in pieces.
- `schema_reads`: it declares three actions with one context of six attributes.
- `wellTyped_compile`: the policies it admits are those whose subjects are all relations to the
  principal.
- `admissible_compile`: compiled policies stay within the limits of the engine.
- `schema_agrees_iff`: a text with plain names passes the checks exactly when it has a policy, names
  no subject and has no carriage return in a name, which no string literal may hold.
- `subject_id_undeclared`: a text with a subject id parses and translates, and never passes.
-/

namespace Paac

open Cedar (Engine ContextType SchemaType)
open Json (Piece LaidOut pieceLines indented keyed)

/-! ## The schema text in pieces -/

/-- The pieces of a type without parameters. -/
def namedType (name : String) : List Piece := keyed "type" [.str name]

/-- The pieces of `schemaStringSet`. -/
def stringSetType : List Piece :=
  keyed "type" (.str "Set" :: .mark ',' :: .space [' '] ::
    keyed "element" (.mark '{' :: .space [' '] ::
      keyed "type" [.str "String", .space [' '], .mark '}']))

/-- The pieces of `schemaAttribute`, with what comes behind it. -/
def attributeLine (name : String) (type ps : List Piece) : List Piece :=
  indented 14 (keyed name (.mark '{' :: .space [' '] :: (type ++
    .mark ',' :: .space [' '] :: keyed "required" (.yes :: .mark '}' :: ps))))

/-- The pieces of the lines of `schemaAction`. -/
def actionLines (name : String) : List (List Piece) :=
  [indented 6 (keyed name [.mark '{']),
    indented 8 (keyed "appliesTo" [.mark '{']),
    indented 10 (keyed "principalTypes" [.mark '[', .str "User", .mark ']', .mark ',']),
    indented 10 (keyed "resourceTypes" [.mark '[', .str "Resource", .mark ']', .mark ',']),
    indented 10 (keyed "context" [.mark '{']),
    indented 12 (keyed "type" [.str "Record", .mark ',']),
    indented 12 (keyed "attributes" [.mark '{']),
    attributeLine "principal_roles" stringSetType [.mark ','],
    attributeLine "action_name" (namedType "String") [.mark ','],
    attributeLine "resource_kind" (namedType "String") [.mark ','],
    attributeLine "subject_is_self" (namedType "Boolean") [.mark ','],
    attributeLine "subject_in_direct_reports" (namedType "Boolean") [.mark ','],
    attributeLine "subject_groups" stringSetType [],
    indented 12 [.mark '}'],
    indented 10 [.mark '}'],
    indented 8 [.mark '}']]

/-- The pieces of the lines of `schemaEntityType`. -/
def entityTypeLines (name : String) : List (List Piece) :=
  [indented 6 (keyed name [.mark '{']),
    indented 8 (keyed "shape" [.mark '{']),
    indented 10 (keyed "type" [.str "Record", .mark ',']),
    indented 10 (keyed "attributes" [.mark '{', .mark '}']),
    indented 8 [.mark '}']]

/-- The line between two declarations of a level. -/
def nextLine (n : Nat) : List Piece := indented n [.mark '}', .mark ',']

/-- The last line of a level. -/
def lastLine (n : Nat) : List Piece := indented n [.mark '}']

/-- The line that opens the declarations of a key. -/
def openLine (n : Nat) (key : String) : List Piece := indented n (keyed key [.mark '{'])

/-- The pieces of the lines of `DEFAULT_CEDAR_SCHEMA_JSON`. -/
def schemaLines : List (List Piece) :=
  [.mark '{'] :: openLine 2 "" :: openLine 4 "entityTypes" ::
    (entityTypeLines "User" ++ nextLine 6 ::
    (entityTypeLines "Resource" ++ lastLine 6 :: nextLine 4 :: openLine 4 "actions" ::
    (actionLines "READ" ++ nextLine 6 ::
    (actionLines "TOOL_INVOKE" ++ nextLine 6 ::
    (actionLines "EXPORT" ++ [lastLine 6, lastLine 4, lastLine 2, [.mark '}']])))))

section

variable {type : String} {ps : List Piece}

theorem laidOut_attribute (htype : LaidOut type ps) (name : String) :
    LaidOut (schemaAttribute name type) (attributeLine name ps []) := by
  unfold schemaAttribute LaidOut
  rw [String.toList_append, String.toList_append, htype]
  simp [attributeLine]

theorem laidOut_attribute_comma (htype : LaidOut type ps) (name : String) :
    LaidOut (schemaAttribute name type ++ ",") (attributeLine name ps [.mark ',']) := by
  rw [LaidOut, String.toList_append, laidOut_attribute htype name]
  simp [attributeLine]

end

theorem laidOut_stringSet : LaidOut schemaStringSet stringSetType := by
  unfold schemaStringSet LaidOut
  simp [stringSetType]

theorem laidOut_string : LaidOut "\"type\": \"String\"" (namedType "String") := by
  simp [LaidOut, namedType]

theorem laidOut_boolean : LaidOut "\"type\": \"Boolean\"" (namedType "Boolean") := by
  simp [LaidOut, namedType]

theorem laidOut_action (name : String) :
    List.Forall₂ LaidOut (schemaAction name) (actionLines name) := by
  unfold schemaAction actionLines
  simp only [List.forall₂_cons, List.Forall₂.nil, laidOut_attribute_comma laidOut_stringSet,
    laidOut_attribute_comma laidOut_string, laidOut_attribute_comma laidOut_boolean,
    laidOut_attribute laidOut_stringSet, true_and, and_true]
  simp [LaidOut]

theorem laidOut_entityType (name : String) :
    List.Forall₂ LaidOut (schemaEntityType name) (entityTypeLines name) := by
  unfold schemaEntityType entityTypeLines
  simp [LaidOut]

/-- The pieces make up the schema text. -/
theorem laidOut_schema : LaidOut defaultCedarSchemaJson (pieceLines schemaLines) := by
  have hopen : List.Forall₂ LaidOut ["\x7b", "  \"\": \x7b", "    \"entityTypes\": \x7b"]
      [[.mark '{'], openLine 2 "", openLine 4 "entityTypes"] := by
    simp [LaidOut, openLine]
  have hnext : List.Forall₂ LaidOut ["      \x7d,"] [nextLine 6] := by
    simp [LaidOut, nextLine]
  have hactions : List.Forall₂ LaidOut ["      \x7d", "    \x7d,", "    \"actions\": \x7b"]
      [lastLine 6, nextLine 4, openLine 4 "actions"] := by
    simp [LaidOut, lastLine, nextLine, openLine]
  have hclose : List.Forall₂ LaidOut ["      \x7d", "    \x7d", "  \x7d", "\x7d"]
      [lastLine 6, lastLine 4, lastLine 2, [.mark '}']] := by
    simp [LaidOut, lastLine]
  have htypes := List.rel_append (List.rel_append (List.rel_append (List.rel_append hopen
    (laidOut_entityType "User")) hnext) (laidOut_entityType "Resource")) hactions
  have hread := List.rel_append (List.rel_append htypes (laidOut_action "READ")) hnext
  have hinvoke := List.rel_append (List.rel_append hread (laidOut_action "TOOL_INVOKE")) hnext
  have hall := List.rel_append (List.rel_append hinvoke (laidOut_action "EXPORT")) hclose
  unfold defaultCedarSchemaJson
  apply LaidOut.join
  simpa only [schemaLines, List.append_assoc, List.cons_append, List.nil_append] using hall

/-! ## What the schema declares -/

/-- The attributes of every context. -/
def proxyContext : ContextType :=
  [("principal_roles", .strSet), ("action_name", .str), ("resource_kind", .str),
    ("subject_is_self", .bool), ("subject_in_direct_reports", .bool), ("subject_groups", .strSet)]

/-- The actions of the proxy, with one context for all. -/
def proxySchema : SchemaType :=
  [("READ", proxyContext), ("TOOL_INVOKE", proxyContext), ("EXPORT", proxyContext)]

/-- **The schema text declares three actions with the same six attributes.** -/
theorem schema_reads : SchemaType.ofText defaultCedarSchemaJson = some proxySchema := by
  have hfits : (pieceLines schemaLines).all Piece.fits = true := by decide +kernel
  rw [SchemaType.ofText, laidOut_schema.parse_eq hfits]
  decide +kernel

theorem lookup_proxySchema {name : String} (h : name ∈ ["READ", "TOOL_INVOKE", "EXPORT"]) :
    lookupEntry name proxySchema = some proxyContext := by
  have hactions : ∀ name ∈ ["READ", "TOOL_INVOKE", "EXPORT"],
      lookupEntry name proxySchema = some proxyContext := by decide
  exact hactions name h

/-! ## The types of compiled policies -/

section

variable {Γ : ContextType} {atom : String → Cedar.Atom}

/-- Alternatives are well typed when each of them is. -/
theorem hasType_anyFactor (ss : List String) :
    ((anyFactor (ss.map atom)).map Cedar.Factor.expr).all (Cedar.Expr.hasType Γ .bool) =
      ss.all fun s => (atom s).expr.hasType Γ .bool := by
  cases ss with
  | nil => rfl
  | cons s ss =>
      have hfactor : ((anyFactor ((s :: ss).map atom)).map Cedar.Factor.expr) =
          [Cedar.orAll (atom s).expr ((ss.map atom).map Cedar.Atom.expr)] := rfl
      rw [hfactor, List.all_cons, List.all_nil, Bool.and_true, Cedar.hasType_orAll, List.map_map,
        List.all_map, List.all_cons]
      rfl

/-- Exceptions are well typed when each of them is. -/
theorem hasType_noneFactor (ss : List String) :
    ((noneFactor (ss.map atom)).map Cedar.Factor.expr).all (Cedar.Expr.hasType Γ .bool) =
      ss.all fun s => (atom s).expr.hasType Γ .bool := by
  cases ss with
  | nil => rfl
  | cons s ss =>
      have hfactor : ((noneFactor ((s :: ss).map atom)).map Cedar.Factor.expr) =
          [.not (Cedar.orAll (atom s).expr ((ss.map atom).map Cedar.Atom.expr))] := rfl
      rw [hfactor, List.all_cons, List.all_nil, Bool.and_true, Cedar.Expr.hasType,
        Cedar.hasType_orAll, List.map_map, List.all_map, List.all_cons]
      rfl

end

theorem hasType_roleAtom (r : String) :
    (roleAtom r).expr.hasType proxyContext .bool = true := rfl

theorem hasType_groupAtom (g : String) :
    (groupAtom g).expr.hasType proxyContext .bool = true := rfl

/-- The schema declares no subject id. -/
theorem hasType_subjectAtom (s : String) :
    (subjectAtom s).expr.hasType proxyContext .bool = !isSubjectId s := by
  unfold subjectAtom
  split
  · next hself =>
      rw [hself]
      rfl
  · next hself =>
      split
      · next hreports =>
          rw [hreports]
          rfl
      · next hreports =>
          have hid : isSubjectId s = true := by simp [isSubjectId, hself, hreports]
          rw [hid]
          rfl

/-- **The policies the schema admits** are those whose subjects are all relations to the
principal. -/
theorem wellTyped_compile {p : DslPolicy} (h : p.action ∈ ["READ", "TOOL_INVOKE", "EXPORT"]) :
    (compile p).wellTyped proxySchema = p.whereSubjects.all fun s => !isSubjectId s := by
  have haction : (compile p).action = some ⟨"Action", p.action⟩ := rfl
  have hkind : (printable p).first.expr.hasType proxyContext .bool = true := rfl
  have hname : (Cedar.Factor.atom (.eq "action_name" p.action)).expr.hasType proxyContext .bool =
      true := rfl
  rw [Cedar.Policy.wellTyped_action haction (lookup_proxySchema h), conditions_compile,
    List.all_cons, List.all_nil, Bool.and_true, Cedar.hasType_andAll, hkind, Bool.true_and]
  have htrue : ∀ ss : List String, ss.all (fun _ => true) = true := fun ss => by simp
  simp only [conditionFactors, List.map_cons, List.map_append, List.all_cons, List.all_append,
    hname, hasType_anyFactor, hasType_noneFactor, hasType_roleAtom, hasType_groupAtom,
    hasType_subjectAtom, htrue, Bool.true_and, Bool.and_true]

/-- A compiled policy is one that the engine takes. -/
theorem admissible_compile (p : DslPolicy) : (compile p).Admissible where
  annotations := by
    have hkeys : (compile p).annotations.map Prod.fst = ["id"] := rfl
    rw [hkeys]
    exact List.nodup_singleton _
  action := by
    rintro a ⟨⟩
    rfl
  attributes := by
    have hbuiltin : ∀ a ∈ builtinNames, a ∉ Cedar.reservedWords := by decide
    intro e he a ha
    exact hbuiltin a (attrs_compile p e he a ha)
  negations := (printable p).fewNegations

/-! ## Schema, translator and parser -/

/-- A policy set is accepted when the validator finds no error. -/
theorem validateCedarPolicySet_ok {E : Engine} {schema : E.Schema}
    (hschema : E.schemaFromJsonStr defaultCedarSchemaJson = .ok schema) (set : E.PolicySet) :
    validateCedarPolicySet E set = .ok () ↔ E.validate schema set = [] := by
  simp only [validateCedarPolicySet, hschema]
  split
  · next h => simpa using h
  · next h => simpa using h

/-- The checks of a text one after the other. -/
theorem validateDsl_of_valid {E : Engine} {dsl : String} {ps : List DslPolicy} {set : E.PolicySet}
    (hparse : parseDsl dsl = .ok ps) (hne : ps ≠ [])
    (hset : E.policySetFromStr (dslToCedar ps) = .ok set)
    (hcheck : validateCedarPolicySet E set = .ok ()) : validateDsl E dsl = .ok ps := by
  have hcompiled : cedarPolicySetFromDsl E ps = .ok set := by
    simp only [cedarPolicySetFromDsl, hset]
  have hfull : ps.isEmpty = false := by
    simpa using hne
  simp only [validateDsl, hparse, hcompiled, hcheck, hfull, bind, Except.bind]
  rfl

/-- The texts that can be committed: the schema declares what the translation reads, and the text
passes the checks. -/
structure SchemaAgrees (E : Engine) (dsl : String) (ps : List DslPolicy) : Prop where
  declared : ∃ S cps, SchemaType.ofText defaultCedarSchemaJson = some S ∧
    Cedar.parsePolicies (dslToCedar ps) = some cps ∧ ∀ p ∈ cps, p.Declared S
  accepted : validateDsl E dsl = .ok ps

/-- The compiled policies are well typed exactly when no subject id occurs. -/
theorem wellTyped_policies {ps : List DslPolicy}
    (h : ∀ p ∈ ps, p.action ∈ ["READ", "TOOL_INVOKE", "EXPORT"]) :
    (∀ p ∈ ps.map compile, p.wellTyped proxySchema = true) ↔
      ∀ p ∈ ps, ∀ s ∈ p.whereSubjects, s = "SELF" ∨ s = "DIRECT_REPORTS" := by
  rw [List.forall_mem_map]
  refine forall₂_congr fun p hp => ?_
  rw [wellTyped_compile (h p hp), List.all_eq_true]
  refine forall₂_congr fun s _ => ?_
  simp [isSubjectId, or_iff_not_imp_left]

/-- **Schema, translator and parser agree** on the texts that name no subject and have no carriage
return in a name. -/
theorem schema_agrees_iff {E : Engine} (hE : E.ValidatesStrictly defaultCedarSchemaJson)
    {dsl : String} {ps : List DslPolicy} (hparse : parseDsl dsl = .ok ps)
    (hplain : ps.all DslPolicy.plainNames = true)
    (hactions : ∀ p ∈ ps, p.action ∈ ["READ", "TOOL_INVOKE", "EXPORT"]) :
    SchemaAgrees E dsl ps ↔
      ps ≠ [] ∧ (∀ p ∈ ps, ∀ s ∈ p.whereSubjects, s = "SELF" ∨ s = "DIRECT_REPORTS") ∧
        ∀ p ∈ ps, ∀ n ∈ p.names, '\r' ∉ n.toList := by
  have hread := parse_dslToCedar hplain
  obtain ⟨schema, hschema, hvalid⟩ := hE.validates schema_reads
  have htyped := wellTyped_policies hactions
  constructor
  · intro h
    obtain ⟨-, hne, set, hset, hcheck⟩ := validateDsl_ok h.accepted
    have herrors := (validateCedarPolicySet_ok hschema set).1 hcheck
    exact ⟨hne, htyped.1 ((hvalid hset hread).1 herrors),
      (hasBareReturn_dslToCedar hplain).1 (hE.refuses hset)⟩
  · rintro ⟨hne, hsubjects, hreturns⟩
    have hwell := htyped.2 hsubjects
    obtain ⟨set, hset⟩ := hE.parses hread ((hasBareReturn_dslToCedar hplain).2 hreturns)
      (List.forall_mem_map.2 fun p _ => admissible_compile p)
    have hcheck := (validateCedarPolicySet_ok hschema set).2 ((hvalid hset hread).2 hwell)
    constructor
    · refine ⟨proxySchema, ps.map compile, schema_reads, hread, fun p hp => ?_⟩
      exact Cedar.Policy.declared_of_wellTyped (hwell p hp)
    · exact validateDsl_of_valid hparse hne hset hcheck

/-- A policy on the salaries of the principal and of the people who report to it. -/
def relationsText : String :=
  "policy p\nallow READ SALARY\nwhere subject == SELF\nor subject in DIRECT_REPORTS"

def relationsPolicies : List DslPolicy :=
  [⟨"p", .allow, "READ", "SALARY", [], ["SELF", "DIRECT_REPORTS"], [], [], relationsText⟩]

/-- A text about the principal and the people who report to it passes. -/
theorem schema_agrees_relations : SchemaAgrees Engine.typed relationsText relationsPolicies :=
  (schema_agrees_iff (Engine.typed_validatesStrictly _) (by decide +kernel) (by decide)
    (by decide)).2 (by decide)

/-- A policy on the salary of one subject. -/
def subjectText : String := "policy p\nallow READ SALARY\nwhere subject == E42"

def subjectPolicy : DslPolicy :=
  ⟨"p", .allow, "READ", "SALARY", [], ["E42"], [], [], subjectText⟩

/-- A text with a subject id parses, and its translation reads an attribute that the schema lacks. -/
theorem subject_id_undeclared :
    parseDsl subjectText = .ok [subjectPolicy] ∧ [subjectPolicy].all DslPolicy.plainNames = true ∧
      (∀ p ∈ [subjectPolicy], p.action ∈ ["READ", "TOOL_INVOKE", "EXPORT"]) ∧
        Engine.typed.ValidatesStrictly defaultCedarSchemaJson ∧
          ¬SchemaAgrees Engine.typed subjectText [subjectPolicy] := by
  have hplain : [subjectPolicy].all DslPolicy.plainNames = true := by decide
  refine ⟨by decide +kernel, hplain, by decide, Engine.typed_validatesStrictly _, fun h => ?_⟩
  obtain ⟨S, cps, hS, hcps, hdeclared⟩ := h.declared
  rw [schema_reads] at hS
  rw [parse_dslToCedar hplain] at hcps
  obtain rfl := Option.some.inj hS
  obtain rfl := Option.some.inj hcps
  obtain ⟨Γs, hΓs, huses⟩ := hdeclared (compile subjectPolicy) List.mem_cons_self
  have hcontexts : (compile subjectPolicy).contexts proxySchema = some [proxyContext] := by decide
  obtain rfl := Option.some.inj (hΓs.symm.trans hcontexts)
  -- the one condition compares the subject id
  have hread : ∃ e ∈ (compile subjectPolicy).conditions, ("subject_id", .str) ∈ e.uses .bool := by
    decide
  obtain ⟨e, he, huse⟩ := hread
  have hlookup := huses proxyContext List.mem_cons_self e he _ huse
  have hnone : lookupEntry "subject_id" proxyContext = none := by decide
  rw [hnone] at hlookup
  cases hlookup

end Paac
