import Paac.Core.Normalised
import Paac.Library.Joined
import Paac.Proxy.Routes

set_option autoImplicit false

/-!
# Delegation chains in the context

A chain of delegates is written to the context as its ids joined by `>` and its length, by the
request builder and by the hook for messages between agents. A chain can be read back unless an id
contains the separator in a place where a boundary can be moved (`Library/Joined.lean`).

The builder trims the ids it is given, so a boundary can only be moved to where the parts are
trimmed ids again. The hook writes the ids of a message whatever they are, so for it a chain of two
ids or more must be free of the separator. Free-form entries of the builder may spell the two
entries of a chain themselves; that none of them does is part of the condition.

## Main results

- `writtenChain_unique_iff`: for bare lists of ids, by the library on joined lists.
- `hops_parts`, `hops_trimmed`: what the builder keeps of the ids it is given.
- `chainEntries_builtContext`, `build_context`: the entries of a chain in a built context.
- `hops_unambiguous_iff`, `messages_unambiguous_iff`: the two writers, the first one over trimmed
  ids.
- `delegation_chain_unambiguous_iff`: both together.
- `delegation_chain_ambiguous`: two chains of two ids that are written alike.
-/

namespace Paac

/-! ## Chains as texts -/

/-- The two entries of a context that describe a delegation chain. -/
def chainEntries (ctx : ContextMap) : Option String × Option String :=
  (ctx.values.get "delegation_chain", ctx.values.get "delegation_depth")

/-- The entries that a chain is written as. -/
def writtenChain (c : List String) : Option String × Option String :=
  (some (Text.join ">" c), some (toString c.length))

theorem toList_join (c : List String) :
    (Text.join ">" c).toList = joined '>' (c.map String.toList) := by
  rw [Text.join, String.toList_intercalate, joined]
  rfl

theorem writtenChain_inj {c d : List String} :
    writtenChain d = writtenChain c ↔ d.length = c.length ∧ Text.join ">" d = Text.join ">" c := by
  simp only [writtenChain, Prod.mk.injEq, Option.some.injEq]
  constructor
  · rintro ⟨hjoin, hlen⟩
    exact ⟨Nat.repr_inj.1 hlen, hjoin⟩
  · rintro ⟨hlen, hjoin⟩
    exact ⟨hjoin, congrArg toString hlen⟩

/-- Where the ids of a chain are the texts of a language, the chain is the only one that is written
as it is exactly when no boundary can be moved. -/
theorem writtenChain_unique_iff {lang : String → Prop} {edge : Option Char → Prop}
    (hedge : edge (some '>')) (hlang : ∀ s, lang s ↔ IsWordOf edge s.toList) {c : List String}
    (hc : ∀ s ∈ c, lang s) :
    (∀ d, (∀ s ∈ d, lang s) → writtenChain d = writtenChain c → d = c) ↔
      ¬Movable '>' edge (c.map String.toList) := by
  have hwords : ∀ w ∈ c.map String.toList, IsWordOf edge w := by
    intro w hw
    obtain ⟨s, hs, rfl⟩ := List.mem_map.1 hw
    exact (hlang s).1 (hc s hs)
  rw [← joined_unique_iff hedge hwords]
  constructor
  · intro h d hd hlen hjoined
    -- a list of character lists is read as one of strings
    have hback : (d.map String.ofList).map String.toList = d := by simp
    have hsame := h (d.map String.ofList)
      (by
        intro s hs
        obtain ⟨w, hw, rfl⟩ := List.mem_map.1 hs
        rw [hlang, String.toList_ofList]
        exact hd w hw)
      (by
        rw [writtenChain_inj, ← String.toList_inj, toList_join, toList_join, hback]
        exact ⟨by simpa using hlen, hjoined⟩)
    rw [← hback, hsame]
  · intro h d hd hwritten
    rw [writtenChain_inj, ← String.toList_inj, toList_join, toList_join] at hwritten
    have hsame := h (d.map String.toList)
      (by
        intro w hw
        obtain ⟨s, hs, rfl⟩ := List.mem_map.1 hw
        exact (hlang s).1 (hd s hs))
      (by simpa using hwritten.1) hwritten.2
    exact List.map_injective_iff.2 (fun _ _ => String.toList_inj.1) hsame

/-! ## Chains of hops -/

/-- The character is there and is not whitespace. -/
def isVisible : Option Char → Prop
  | some c => Text.isWhitespace c = false
  | none => False

/-- A text is trimmed when its first and its last character are visible. -/
theorem isTrimmed_iff (s : String) : IsTrimmed s ↔ IsWordOf isVisible s.toList := by
  constructor
  · rintro ⟨hne, htrim⟩
    have hchars : s.toList ≠ [] := fun h => hne (by rw [← String.toList_inj, h]; rfl)
    constructor
    · rw [List.head?_eq_some_head hchars]
      apply Text.trim_head (s := s)
      rw [htrim, List.head?_eq_some_head hchars]
    · rw [List.getLast?_eq_some_getLast hchars]
      apply Text.trim_getLast (s := s)
      rw [htrim, List.getLast?_eq_some_getLast hchars]
  · rintro ⟨hhead, hlast⟩
    constructor
    · rintro rfl
      exact hhead
    · apply Text.trim_of_ends
      · intro c hc
        rwa [hc] at hhead
      · intro c hc
        rwa [hc] at hlast

/-- No boundary of the chain can be moved over a `>` of a neighbouring id. -/
def BoundariesFixed (c : List String) : Prop := ¬Movable '>' isVisible (c.map String.toList)

namespace AuthzRequestBuilder

/-- `delegation_hop` for every id of a list. -/
def hops (b : AuthzRequestBuilder) (ids : List String) : Except AuthzError AuthzRequestBuilder :=
  ids.foldlM delegationHop b

/-- The free-form entries of the builder are not those of the chain, nor of any chain when the chain
is empty and writes none. -/
def SpeaksForNoChain (b : AuthzRequestBuilder) (c : List String) : Prop :=
  ∀ d, d ≠ [] → (∀ id ∈ d, IsTrimmed id) → c = [] ∨ d = c →
    chainEntries b.context ≠ writtenChain d

/-- Adding delegates trims them and changes nothing else. -/
theorem hops_parts {b b' : AuthzRequestBuilder} {ids : List String} (h : b.hops ids = .ok b') :
    b' = { b with delegationChain := b.delegationChain ++ ids.map Text.trim } ∧
      ∀ id ∈ ids.map Text.trim, IsTrimmed id := by
  induction ids generalizing b with
  | nil =>
      obtain rfl := Except.ok.inj h
      exact ⟨by simp, nofun⟩
  | cons id ids ih =>
      rw [hops, List.foldlM_cons] at h
      obtain ⟨m, hm, h⟩ := bind_eq_ok.1 h
      obtain ⟨t, ht, hm⟩ := bind_eq_ok.1 hm
      obtain ⟨rfl, htrimmed⟩ := newId_trimmed ht
      obtain rfl := Except.ok.inj hm
      obtain ⟨rfl, hids⟩ := ih h
      constructor
      · simp
      · rw [List.map_cons, List.forall_mem_cons]
        exact ⟨htrimmed, hids⟩

/-- Trimmed ids are accepted as they are. -/
theorem hops_trimmed (b : AuthzRequestBuilder) {c : List String} (hc : ∀ id ∈ c, IsTrimmed id) :
    b.hops c = .ok { b with delegationChain := b.delegationChain ++ c } := by
  induction c generalizing b with
  | nil => simp [hops, pure, Except.pure]
  | cons id c ih =>
      obtain ⟨⟨hne, htrim⟩, hc⟩ := List.forall_mem_cons.1 hc
      have hhop : b.delegationHop id =
          .ok { b with delegationChain := b.delegationChain ++ [id] } := by
        have hnew : PrincipalId.new id = .ok id := by
          simp [PrincipalId.new, newId, htrim, hne]
        rw [delegationHop, hnew]
        rfl
      rw [hops, List.foldlM_cons, hhop, bind_ok_eq]
      have hrest := ih { b with delegationChain := b.delegationChain ++ [id] } hc
      rw [List.append_assoc, List.singleton_append] at hrest
      exact hrest

/-- The context that is built has the chain, or none when it is empty. -/
theorem chainEntries_builtContext (b : AuthzRequestBuilder) :
    chainEntries b.builtContext =
      if b.delegationChain = [] then chainEntries b.context else writtenChain b.delegationChain := by
  unfold builtContext
  cases hchain : b.delegationChain with
  | nil => rfl
  | cons id c =>
    have hother : "delegation_depth" ≠ "delegation_chain" := by decide
    rw [List.isEmpty_cons, if_neg Bool.false_ne_true, if_neg (List.cons_ne_nil id c), chainEntries,
      IndexMap.get_insert_ne _ hother, IndexMap.get_insert_self, IndexMap.get_insert_self,
      writtenChain]

/-- The chain decides nothing about whether the request can be built. -/
theorem build_withChain {b : AuthzRequestBuilder} {req : AuthzRequest} (h : b.build = .ok req)
    (c : List String) :
    ({ b with delegationChain := c } : AuthzRequestBuilder).build = .ok { req with
      context := ({ b with delegationChain := c } : AuthzRequestBuilder).builtContext } := by
  rw [build] at h ⊢
  obtain ⟨principal, hprincipal, h⟩ := bind_eq_ok.1 h
  obtain ⟨action, haction, h⟩ := bind_eq_ok.1 h
  obtain ⟨resource, hresource, h⟩ := bind_eq_ok.1 h
  obtain ⟨⟨⟩, hvalid, h⟩ := bind_eq_ok.1 h
  obtain rfl := Except.ok.inj h
  rw [hprincipal, haction, hresource, bind_ok_eq, bind_ok_eq, bind_ok_eq]
  apply bind_eq_ok.2
  exact ⟨(), hvalid, rfl⟩

theorem build_context {b : AuthzRequestBuilder} {req : AuthzRequest} (h : b.build = .ok req) :
    req.context = b.builtContext := by
  have hsame := build_withChain h b.delegationChain
  rw [show ({ b with delegationChain := b.delegationChain } : AuthzRequestBuilder) = b from rfl, h]
    at hsame
  exact congrArg AuthzRequest.context (Except.ok.inj hsame)

/-- Chains of hops onto a builder without one. -/
theorem hops_unambiguous_iff {b bc : AuthzRequestBuilder} {ids : List String} {req : AuthzRequest}
    (hnew : b.delegationChain = []) (hhops : b.hops ids = .ok bc) (hbuild : bc.build = .ok req) :
    (∀ ids' bd req', b.hops ids' = .ok bd → bd.build = .ok req' →
        chainEntries req'.context = chainEntries req.context →
          bd.delegationChain = bc.delegationChain) ↔
      BoundariesFixed bc.delegationChain ∧ b.SpeaksForNoChain bc.delegationChain := by
  obtain ⟨rfl, htrimmed⟩ := hops_parts hhops
  rw [build_context hbuild, chainEntries_builtContext]
  simp only [hnew, List.nil_append]
  generalize hc : ids.map Text.trim = c at htrimmed
  have hunique := @writtenChain_unique_iff IsTrimmed isVisible (by simp [isVisible]; decide)
    isTrimmed_iff c htrimmed
  -- the entries after the hops of an accepted chain
  have hentries : ∀ d, (∀ id ∈ d, IsTrimmed id) → ∃ req',
      b.hops d = .ok { b with delegationChain := d } ∧
        ({ b with delegationChain := d } : AuthzRequestBuilder).build = .ok req' ∧
        chainEntries req'.context = if d = [] then chainEntries b.context else writtenChain d := by
    intro d hd
    have hopped := hops_trimmed b hd
    rw [hnew, List.nil_append] at hopped
    have hbuilt := build_withChain hbuild d
    exact ⟨_, hopped, hbuilt, chainEntries_builtContext _⟩
  constructor
  · intro h
    constructor
    · apply hunique.1
      intro d hd hwritten
      -- chains of one length are empty together
      have hempty : d = [] ↔ c = [] := by
        rw [← List.length_eq_zero_iff, ← List.length_eq_zero_iff, (writtenChain_inj.1 hwritten).1]
      obtain ⟨req', hopped, hbuilt, hreq'⟩ := hentries d hd
      apply h d _ req' hopped hbuilt
      simp only [hreq', hwritten, hempty]
    · intro d hne hd hcase hfree
      rcases hcase with rfl | rfl
      · obtain ⟨req', hopped, hbuilt, hreq'⟩ := hentries d hd
        apply hne
        apply h d _ req' hopped hbuilt
        rw [hreq', if_neg hne, if_pos rfl, hfree]
      · obtain ⟨req', hopped, hbuilt, hreq'⟩ := hentries [] nofun
        apply hne
        refine (h [] _ req' hopped hbuilt ?_).symm
        rw [hreq', if_pos rfl, if_neg hne, hfree]
  · rintro ⟨hfixed, hsilent⟩ ids' bd req' hopped hbuilt hsame
    obtain ⟨rfl, hd⟩ := hops_parts hopped
    rw [build_context hbuilt, chainEntries_builtContext] at hsame
    simp only [hnew, List.nil_append] at hsame ⊢
    generalize ids'.map Text.trim = d at hd hsame
    -- either chain may be empty, and then the free-form entries stand for it
    by_cases hdempty : d = []
    · by_cases hcempty : c = []
      · rw [hdempty, hcempty]
      · rw [if_pos hdempty, if_neg hcempty] at hsame
        exact absurd hsame (hsilent c hcempty htrimmed (Or.inr rfl))
    · by_cases hcempty : c = []
      · rw [if_neg hdempty, if_pos hcempty] at hsame
        exact absurd hsame.symm (hsilent d hdempty hd (Or.inl hcempty))
      · rw [if_neg hdempty, if_neg hcempty] at hsame
        exact hunique.2 hfixed d hd hsame

end AuthzRequestBuilder

/-! ## Chains in messages between agents -/

theorem chainEntries_a2aRequest (principal : Principal) (msg : A2aMessage) :
    chainEntries (a2aRequest principal msg).context = writtenChain msg.delegationChain := by
  have hother : "delegation_depth" ≠ "delegation_chain" := by decide
  simp only [chainEntries, a2aRequest, IndexMap.ofList, List.foldl_cons, List.foldl_nil]
  rw [IndexMap.get_insert_ne _ hother, IndexMap.get_insert_self, IndexMap.get_insert_self,
    writtenChain]

/-- When the chain of a message can be read back. -/
theorem messages_unambiguous_iff (principal : Principal) (msg : A2aMessage) :
    (∀ principal' msg', chainEntries (a2aRequest principal' msg').context =
        chainEntries (a2aRequest principal msg).context →
          msg'.delegationChain = msg.delegationChain) ↔
      msg.delegationChain.length ≤ 1 ∨ ∀ id ∈ msg.delegationChain, '>' ∉ id.toList := by
  have hunique := @writtenChain_unique_iff (fun _ => True) (fun _ => True) trivial
    (fun _ => by simp [IsWordOf]) msg.delegationChain (fun _ _ => trivial)
  have hmovable : ¬Movable '>' (fun _ => True) (msg.delegationChain.map String.toList) ↔
      msg.delegationChain.length ≤ 1 ∨ ∀ id ∈ msg.delegationChain, '>' ∉ id.toList := by
    rw [movable_any_iff, not_and_or, not_le, Nat.lt_succ_iff]
    simp
  rw [← hmovable, ← hunique]
  constructor
  · intro h d _ hwritten
    apply h principal { msg with delegationChain := d }
    rw [chainEntries_a2aRequest, chainEntries_a2aRequest]
    exact hwritten
  · intro h principal' msg' hsame
    rw [chainEntries_a2aRequest, chainEntries_a2aRequest] at hsame
    exact h msg'.delegationChain (fun _ _ => trivial) hsame

/-- **A delegation chain can be read back from the context**: one that the builder writes exactly when
no boundary can be moved over a `>` and the free-form entries are not those of a chain, and one of a
message exactly when it has at most one id or no id contains `>`. -/
theorem delegation_chain_unambiguous_iff (b bc : AuthzRequestBuilder) (ids : List String)
    (req : AuthzRequest) (principal : Principal) (msg : A2aMessage)
    (hnew : b.delegationChain = []) (hhops : b.hops ids = .ok bc) (hbuild : bc.build = .ok req) :
    ((∀ ids' bd req', b.hops ids' = .ok bd → bd.build = .ok req' →
        chainEntries req'.context = chainEntries req.context →
          bd.delegationChain = bc.delegationChain) ↔
      BoundariesFixed bc.delegationChain ∧ b.SpeaksForNoChain bc.delegationChain) ∧
    ((∀ principal' msg', chainEntries (a2aRequest principal' msg').context =
        chainEntries (a2aRequest principal msg).context →
          msg'.delegationChain = msg.delegationChain) ↔
      msg.delegationChain.length ≤ 1 ∨ ∀ id ∈ msg.delegationChain, '>' ∉ id.toList) :=
  ⟨AuthzRequestBuilder.hops_unambiguous_iff hnew hhops hbuild, messages_unambiguous_iff principal msg⟩

/-! ### Chains of two and three delegates -/

namespace Delegation

/-- Everything but the chain. -/
def builder : AuthzRequestBuilder :=
  { AuthzRequestBuilder.new with
    principal := some (Principal.withRoles "agent:bot" ["EMPLOYEE"])
    action := some ⟨"READ"⟩
    resource := some (Resource.ofKind "EMPLOYEE_PROFILE")
    actingAs := some "agent:bot"
    onBehalfOf := some "user:hr-head" }

def withChain (c : List String) : AuthzRequestBuilder := { builder with delegationChain := c }

def request (c : List String) : AuthzRequest :=
  ⟨Principal.withRoles "agent:bot" ["EMPLOYEE"], ⟨"READ"⟩, .ofKind "EMPLOYEE_PROFILE", none,
    (withChain c).builtContext, [], some "agent:bot", some "user:hr-head"⟩

def message (c : List String) : A2aMessage := ⟨"planner", "mailer", "send", c⟩

theorem built (c : List String) : (withChain c).build = .ok (request c) := by
  have hbuilder : builder.build = .ok (request []) := rfl
  exact AuthzRequestBuilder.build_withChain hbuilder c

theorem hopped : ∀ c ∈ [["user:hr-head", "agent:bot"], ["user:a>user:b", "agent:bot"],
    ["user:a", "user:b>agent:bot"]], builder.hops c = .ok (withChain c) := by
  intro c hc
  have htrimmed : ∀ c ∈ [["user:hr-head", "agent:bot"], ["user:a>user:b", "agent:bot"],
      ["user:a", "user:b>agent:bot"]], ∀ id ∈ c, id ≠ "" ∧ Text.trim id = id := by
    decide
  exact AuthzRequestBuilder.hops_trimmed builder (htrimmed c hc)

end Delegation

open Delegation in
/-- A chain of two ids without the separator can be read back. -/
theorem delegation_chain_unambiguous_bot :
    (∀ ids' bd req', builder.hops ids' = .ok bd → bd.build = .ok req' →
        chainEntries req'.context = chainEntries (request ["user:hr-head", "agent:bot"]).context →
          bd.delegationChain = ["user:hr-head", "agent:bot"]) ∧
      ∀ principal' msg', chainEntries (a2aRequest principal' msg').context =
        chainEntries (a2aRequest (Principal.withRoles "bob" []) (message ["a", "b"])).context →
          msg'.delegationChain = ["a", "b"] := by
  obtain ⟨hhops, hmessages⟩ := delegation_chain_unambiguous_iff builder
    (withChain ["user:hr-head", "agent:bot"]) ["user:hr-head", "agent:bot"] _
    (Principal.withRoles "bob" []) (message ["a", "b"]) rfl (hopped _ (by decide)) (built _)
  constructor
  · apply hhops.2
    constructor
    · -- no id contains the separator
      have hfree : ∀ id ∈ (withChain ["user:hr-head", "agent:bot"]).delegationChain.map String.toList,
          '>' ∉ id := by
        decide
      rintro (⟨a, ha, x, y, rfl, -⟩ | ⟨a, ha, x, y, rfl, -⟩)
      · exact hfree _ (List.mem_of_mem_dropLast ha) (by simp)
      · exact hfree _ (List.mem_of_mem_tail ha) (by simp)
    · intro d _ _ _ hentries
      cases hentries
  · exact hmessages.2 (Or.inr (by decide))

open Delegation in
/-- Two chains of two delegates are written alike, by the builder and in a message. -/
theorem delegation_chain_ambiguous :
    builder.hops ["user:a>user:b", "agent:bot"] = .ok (withChain ["user:a>user:b", "agent:bot"]) ∧
      (withChain ["user:a>user:b", "agent:bot"]).build = .ok (request ["user:a>user:b", "agent:bot"]) ∧
      builder.hops ["user:a", "user:b>agent:bot"] = .ok (withChain ["user:a", "user:b>agent:bot"]) ∧
      (withChain ["user:a", "user:b>agent:bot"]).build = .ok (request ["user:a", "user:b>agent:bot"]) ∧
      chainEntries (request ["user:a>user:b", "agent:bot"]).context =
        chainEntries (request ["user:a", "user:b>agent:bot"]).context ∧
      (∀ principal,
        chainEntries (a2aRequest principal (message ["user:a>user:b", "agent:bot"])).context =
          chainEntries (a2aRequest principal (message ["user:a", "user:b>agent:bot"])).context) ∧
      (["user:a>user:b", "agent:bot"] : List String) ≠ ["user:a", "user:b>agent:bot"] := by
  refine ⟨hopped _ (by decide), built _, hopped _ (by decide), built _, by decide, ?_, by decide⟩
  intro principal
  rw [chainEntries_a2aRequest, chainEntries_a2aRequest]
  decide

end Paac
