import Paac.Policy.Meaning

set_option autoImplicit false

/-!
# Which texts the parser accepts

The parser accepts a text exactly when every line can be read as a clause, every clause is in a
block and every block has a rule line. The reader of `Meaning.lean` has no error paths, so the two
are compared step by step: where the reader goes on, so does the parser, unless the line closes a
block without a rule line, which only the parser looks at.

## Main results

- `Partial.Lists.finishes`, `ParseState.Lists.closes`: a record is finished when its block has a
  rule, and the loop state is closed when its open record is.
- `parseLine_accepts`: one line in step.
- `parseLines_accepts`: so the parser goes on where the reader does, by induction on the lines.
- `parseDsl_accepts_iff`: the texts that are accepted are those whose blocks can be read and have a
  rule line each.
-/

namespace Paac

/-! ## The whole text -/

theorem lastRule_eq_getLast? (cs : List Clause) :
    lastRule cs = (cs.filterMap Clause.rule?).getLast? := by
  induction cs with
  | nil => rfl
  | cons c cs ih =>
      rw [lastRule, ih]
      cases hc : c.rule? with
      | none => rw [List.filterMap_cons_none hc, Option.or_none]
      | some r => rw [List.filterMap_cons_some hc, List.getLast?_cons, Option.or_some]

/-- The block has a rule line. -/
def Block.hasRule (b : Block) : Bool := (lastRule b.clauses).isSome

/-- A record that lists a block with a rule line can be finished. -/
theorem Partial.Lists.finishes {p : Partial} {b : Block} (h : p.Lists b)
    (hrule : b.hasRule = true) : ∃ d, p.finish = .ok d := by
  obtain ⟨r, hr⟩ := Option.isSome_iff_exists.1 hrule
  have heffect := h.effect
  have haction := h.action
  have hresource := h.resource
  rw [hr] at heffect haction hresource
  refine ⟨⟨p.id, r.1, r.2.1, r.2.2, p.whenRoles, p.whereSubjects, p.unlessRoles,
    p.whereSubjectGroups, p.raw⟩, ?_⟩
  simp only [Partial.finish, heffect, haction, hresource, Option.map_some]
  rfl

theorem ParseState.Lists.closes {s : ParseState} {bs : Blocks} (h : s.Lists bs)
    (hrules : ∀ b ∈ bs.current, b.hasRule = true) : ∃ ps, s.close = .ok ps := by
  obtain ⟨-, hcurrent⟩ := h
  rcases s with ⟨policies, current⟩
  rcases bs with ⟨done, open?⟩
  cases current with
  | none => exact ⟨policies, rfl⟩
  | some p =>
      cases open? with
      | none => exact hcurrent.elim
      | some b =>
          obtain ⟨d, hd⟩ := Partial.Lists.finishes hcurrent (hrules b rfl)
          refine ⟨policies ++ [d], ?_⟩
          simp only [ParseState.close, hd]
          rfl

/-- Blocks stay in place once another one is open. -/
theorem Blocks.readLine_done {bs bs' : Blocks} {rawLine : String}
    (h : bs.readLine rawLine = some bs') : bs' = bs ∨ bs'.done = bs.all ∨ bs'.done = bs.done := by
  simp only [Blocks.readLine] at h
  split at h
  · exact Or.inl (Option.some.inj h).symm
  · obtain ⟨c, -, hc⟩ := Option.bind_eq_some_iff.1 h
    cases c with
    | header name =>
        obtain rfl := Option.some.inj hc
        exact Or.inr (Or.inl rfl)
    | roles rs =>
        obtain ⟨b, -, rfl⟩ := Option.map_eq_some_iff.1 hc
        exact Or.inr (Or.inr rfl)
    | rule e a k =>
        obtain ⟨b, -, rfl⟩ := Option.map_eq_some_iff.1 hc
        exact Or.inr (Or.inr rfl)
    | subject l =>
        obtain ⟨b, -, rfl⟩ := Option.map_eq_some_iff.1 hc
        exact Or.inr (Or.inr rfl)
    | exempt rs =>
        obtain ⟨b, -, rfl⟩ := Option.map_eq_some_iff.1 hc
        exact Or.inr (Or.inr rfl)

/-- **One line in step**: a line that can be read is accepted, if the block it closes has a rule. -/
theorem parseLine_accepts {s : ParseState} {bs bs' : Blocks} {rawLine : String} (hs : s.Lists bs)
    (h : bs.readLine rawLine = some bs')
    (hrules : bs'.done = bs.all → ∀ b ∈ bs.current, b.hasRule = true) (loc : Nat) :
    ∃ s', parseLine s loc rawLine = .ok s' := by
  simp only [Blocks.readLine] at h
  simp only [parseLine]
  split
  · exact ⟨s, rfl⟩
  · rename_i hline
    rw [if_neg hline] at h
    obtain ⟨c, hc, hpush⟩ := Option.bind_eq_some_iff.1 h
    cases hpolicy : Text.stripPrefix "policy " (Text.trim (stripComment rawLine)) with
    | some rest =>
        have hname : (parseQuotedName rest).map Clause.header = some c := by
          rw [← hc, readClause, hpolicy]
        obtain ⟨name, hparsed, rfl⟩ := Option.map_eq_some_iff.1 hname
        obtain rfl := Option.some.inj hpush
        obtain ⟨ps, hps⟩ := hs.closes (hrules rfl)
        refine ⟨⟨ps, some (Partial.new name rawLine)⟩, ?_⟩
        simp only [hps, hparsed]
        rfl
    | none =>
        obtain ⟨-, hcurrent⟩ := hs
        rcases s with ⟨policies, current⟩
        rcases bs with ⟨done, open?⟩
        cases current with
        | none =>
            cases open? with
            | some b => exact hcurrent.elim
            | none =>
                -- only a header may stand outside a block, and this is none
                have hheader : ∀ name, c ≠ .header name := by
                  rintro name rfl
                  exact readClause_ne_header hpolicy name hc
                rw [Blocks.push_eq hheader] at hpush
                cases hpush
        | some p =>
            have hp' := (@parseStatement_iff _ { p with raw := p.raw ++ "\n" ++ rawLine } _ loc
              hpolicy).2 ⟨c, hc, rfl⟩
            refine ⟨⟨policies, some (Partial.add { p with raw := p.raw ++ "\n" ++ rawLine } c)⟩, ?_⟩
            simp only [hp']
            rfl

/-- Blocks that are closed stay. -/
theorem foldlM_done (ls : List String) : ∀ {bs bs' : Blocks},
    ls.foldlM Blocks.readLine bs = some bs' → ∀ b ∈ bs.done, b ∈ bs'.done := by
  induction ls with
  | nil =>
      intro bs bs' h b hb
      rwa [← Option.some.inj h]
  | cons l ls ih =>
      intro bs bs' h b hb
      rw [List.foldlM_cons] at h
      obtain ⟨bs₁, h₁, h⟩ := Option.bind_eq_some_iff.1 h
      refine ih h b ?_
      rcases Blocks.readLine_done h₁ with rfl | hdone | hdone
      · exact hb
      · rw [hdone]
        exact List.mem_append_left _ hb
      · rwa [hdone]

/-- The parser goes on as long as the reader does, by induction on the lines. -/
theorem parseLines_accepts (ls : List String) :
    ∀ {s : ParseState} {bs bs' : Blocks} {loc : Nat}, s.Lists bs →
      ls.foldlM Blocks.readLine bs = some bs' → (∀ b ∈ bs'.all, b.hasRule = true) →
      ∃ s', parseLines s loc ls = .ok s' ∧ s'.Lists bs' := by
  induction ls with
  | nil =>
      intro s bs bs' loc hs h _
      obtain rfl := Option.some.inj h
      exact ⟨s, rfl, hs⟩
  | cons l ls ih =>
      intro s bs bs' loc hs h hrules
      rw [List.foldlM_cons] at h
      obtain ⟨bs₁, h₁, h⟩ := Option.bind_eq_some_iff.1 h
      -- a block that this line closes stays among the blocks, so it has its rule
      have hclosed : bs₁.done = bs.all → ∀ b ∈ bs.current, b.hasRule = true := by
        intro hdone b hb
        refine hrules b (List.mem_append_left _ (foldlM_done ls h b ?_))
        rw [hdone]
        exact List.mem_append_right _ (Option.mem_toList.2 hb)
      obtain ⟨s₁, hs₁⟩ := parseLine_accepts hs h₁ hclosed loc
      obtain ⟨bs₂, h₂, hlists⟩ := parseLine_reads hs hs₁
      obtain rfl := Option.some.inj (h₁.symm.trans h₂)
      obtain ⟨s', hs', hlists'⟩ := ih hlists h hrules
      exact ⟨s', by rw [parseLines, hs₁]; exact hs', hlists'⟩

/-- **What the parser accepts**: the texts whose blocks can be read and have a rule line each. -/
theorem parseDsl_accepts_iff {input : String} :
    (∃ ps, parseDsl input = .ok ps) ↔
      ∃ bs, readBlocks input = some bs ∧ ∀ b ∈ bs, b.hasRule = true := by
  constructor
  · rintro ⟨ps, hps⟩
    obtain ⟨bs, hbs, hlists⟩ := parseDsl_reads hps
    refine ⟨bs, hbs, ?_⟩
    clear hps hbs
    induction hlists with
    | nil => exact fun b hb => absurd hb List.not_mem_nil
    | cons hp _ ih =>
        rw [List.forall_mem_cons]
        exact ⟨by rw [Block.hasRule, hp.rule]; rfl, ih⟩
  · rintro ⟨bs, hbs, hrules⟩
    obtain ⟨bs', hfold, rfl⟩ := Option.map_eq_some_iff.1 hbs
    obtain ⟨s, hs, hlists⟩ := @parseLines_accepts (Text.lines input) ⟨[], none⟩ ⟨[], none⟩ _
      1 ⟨List.Forall₂.nil, trivial⟩ hfold hrules
    obtain ⟨ps, hps⟩ := hlists.closes fun b hb =>
      hrules b (List.mem_append_right _ (Option.mem_toList.2 hb))
    exact ⟨ps, by rw [parseDsl, hs]; exact hps⟩

end Paac
