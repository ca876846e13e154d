import Paac.Library.JsonMeaning
import Paac.Proxy.PromptGate

set_option autoImplicit false

/-!
# What the upstream receives

The body of a chat request is decoded into typed records and encoded again when it is forwarded. The
encoding has the declared members and no others. The content of a message and the tools are dynamic
values: what is sent of them means the same, except for numbers that the reader does not keep.

What is sent is compared with the body of the client as the format is nested: the members of the
body, of each message, and of each historical tool call with its function (`BodyCarried`). Values
are compared by what they mean, so neither the order of members nor the spelling of a number counts.
At each level the member that is compared one level down is left out.

## Main results

- `function_carried_iff`, `call_carried_iff`, `message_carried_iff`, `body_carried_iff`: at each
  level the encoding of what was decoded has every member of the original, with the same value,
  exactly when the original has declared members only, no null that is skipped, and no number that
  changes.
- `chatCompletions_sends`: the handler sends the decoded body and nothing else.
- `transparent_iff`: so the upstream receives every member of the client's body exactly under that
  condition.
- `temperature_dropped`: a sampling temperature is not sent.
-/

namespace Paac

open Cedar (Engine)
open Serde

/-! ## Encodings -/

def ToolFunction.names : List String := ["name", "arguments"]

def ToolFunction.toJson (f : ToolFunction) : Json :=
  .obj [("name", .str f.name), ("arguments", .str f.arguments)]

def ToolFunction.fromJson (j : Json) : Decoded ToolFunction := do
  let ms ← fields ToolFunction.names 2 j
  return {
    name := ← required "name" string ms
    arguments := ← required "arguments" string ms }

def ToolCallMsg.names : List String := ["id", "type", "function"]

def ToolCallMsg.toJson (c : ToolCallMsg) : Json :=
  .obj [("id", .str c.id), ("type", .str c.type), ("function", c.function.toJson)]

/-- The type is `function` by default. -/
def ToolCallMsg.fromJson (j : Json) : Decoded ToolCallMsg := do
  let ms ← fields ToolCallMsg.names 3 j
  return {
    id := ← required "id" string ms
    type := ← defaulted "type" string "function" ms
    function := ← required "function" ToolFunction.fromJson ms }

def ChatMessage.names : List String := ["role", "content", "tool_calls", "name", "tool_call_id"]

/-- What is missing is written as null. -/
def ChatMessage.toJson (m : ChatMessage) : Json :=
  .obj [
    ("role", .str m.role),
    ("content", ofOption id m.content),
    ("tool_calls", ofOption (ofList ToolCallMsg.toJson) m.toolCalls),
    ("name", ofOption Json.str m.name),
    ("tool_call_id", ofOption Json.str m.toolCallId)]

def ChatMessage.fromJson (doubles : Doubles) (j : Json) : Decoded ChatMessage := do
  let ms ← fields ChatMessage.names 1 j
  return {
    role := ← required "role" string ms
    content := ← optional "content" (value doubles) ms
    toolCalls := ← optional "tool_calls" (vec ToolCallMsg.fromJson) ms
    name := ← optional "name" string ms
    toolCallId := ← optional "tool_call_id" string ms }

def ChatCompletionRequest.names : List String := ["model", "messages", "stream", "tools"]

/-- A member that is skipped when there is none. -/
def skipNone {α : Type} (name : String) (write : α → Json) (o : Option α) : List (String × Json) :=
  o.toList.map fun a => (name, write a)

/-- A member is left out when its field has no value. -/
theorem mem_skipNone {α : Type} {name : String} {write : α → Json} {o : Option α} {k : String}
    {v : Json} : (k, v) ∈ skipNone name write o ↔ k = name ∧ ∃ a, o = some a ∧ v = write a := by
  cases o with
  | none => simp [skipNone]
  | some a => simp [skipNone, Prod.mk.injEq]

def ChatCompletionRequest.toJson (r : ChatCompletionRequest) : Json :=
  .obj ([("model", .str r.model), ("messages", ofList ChatMessage.toJson r.messages)] ++
    skipNone "stream" Json.bool r.stream ++ skipNone "tools" Json.arr r.tools)

def ChatCompletionRequest.fromJson (doubles : Doubles) (j : Json) :
    Decoded ChatCompletionRequest := do
  let ms ← fields ChatCompletionRequest.names 2 j
  return {
    model := ← required "model" string ms
    messages := ← required "messages" (vec (ChatMessage.fromJson doubles)) ms
    stream := ← optional "stream" boolean ms
    tools := ← optional "tools" (vec (value doubles)) ms }

/-! ## Members -/

/-- The members of an object. -/
def members : Json → List (String × Json)
  | .obj ms => ms
  | _ => []

/-- The messages of a body. -/
def messagesOf (j : Json) : List Json :=
  ((fieldValue ChatCompletionRequest.names "messages" j).asArray).getD []

/-- The historical tool calls of a message. -/
def callsOf (m : Json) : List Json :=
  ((fieldValue ChatMessage.names "tool_calls" m).asArray).getD []

/-- The function of a tool call. -/
def functionOf (c : Json) : Json := fieldValue ToolCallMsg.names "function" c

/-- The object sent has the member, with the same value. -/
def Carries (sent : Json) (k : String) (v : Json) : Prop := ∃ w, (k, w) ∈ members sent ∧ w.Same v

theorem carries_of_mem {sent : Json} {k : String} {v : Json} (h : (k, v) ∈ members sent) :
    Carries sent k v := ⟨v, h, .refl v⟩

/-- Every member of the one is a member of the other, the named one apart. -/
def CarriedBut (name : String) (j sent : Json) : Prop :=
  ∀ k v, (k, v) ∈ members j → k ≠ name → Carries sent k v

/-- A tool call is sent with every member, its function with every member too. -/
structure CallCarried (c sent : Json) : Prop where
  members : CarriedBut "function" c sent
  function : ∀ k v, (k, v) ∈ Paac.members (functionOf c) → Carries (functionOf sent) k v

/-- A message is sent with every member, and so is each of its tool calls. -/
structure MessageCarried (m sent : Json) : Prop where
  members : CarriedBut "tool_calls" m sent
  calls : List.Forall₂ CallCarried (callsOf m) (callsOf sent)

/-- A body is sent with every member, and so is each of its messages. -/
structure BodyCarried (j sent : Json) : Prop where
  members : CarriedBut "messages" j sent
  messages : List.Forall₂ MessageCarried (messagesOf j) (messagesOf sent)

/-- The members of the object are among the names. -/
def MembersAmong (names : List String) (j : Json) : Prop := ∀ k v, (k, v) ∈ members j → k ∈ names

/-- A tool call with declared members only. -/
structure CallDeclared (c : Json) : Prop where
  members : MembersAmong ToolCallMsg.names c
  function : MembersAmong ToolFunction.names (functionOf c)

/-- A message with declared members only, in whose content every number is kept. -/
structure MessageDeclared (doubles : Doubles) (m : Json) : Prop where
  members : MembersAmong ChatMessage.names m
  content : ∀ v, ("content", v) ∈ Paac.members m → NumbersKept doubles v
  calls : ∀ c ∈ callsOf m, CallDeclared c

/-- A body with declared members only, without a null that is skipped, and in whose tools every
number is kept. -/
structure BodyDeclared (doubles : Doubles) (j : Json) : Prop where
  members : MembersAmong ChatCompletionRequest.names j
  stream : ("stream", Json.null) ∉ Paac.members j
  tools : ("tools", Json.null) ∉ Paac.members j
  numbers : ∀ v, ("tools", v) ∈ Paac.members j → NumbersKept doubles v
  messages : ∀ m ∈ messagesOf j, MessageDeclared doubles m

/-! ## Level by level -/

/-- Where an object is sent with every member, its members are among those that are written. -/
theorem MembersAmong.of_carried {names : List String} {j sent : Json}
    (hwritten : MembersAmong names sent) (h : ∀ k v, (k, v) ∈ members j → Carries sent k v) :
    MembersAmong names j := by
  intro k v hv
  obtain ⟨w, hw, -⟩ := h k v hv
  exact hwritten k w hw

/-- The same where one declared member is compared apart. -/
theorem MembersAmong.of_carriedBut {names : List String} {name : String} {j sent : Json}
    (hwritten : MembersAmong names sent) (hname : name ∈ names) (h : CarriedBut name j sent) :
    MembersAmong names j := by
  intro k v hv
  by_cases hk : k = name
  · rw [hk]
    exact hname
  · obtain ⟨w, hw, -⟩ := h k v hv hk
    exact hwritten k w hw

/-- An object whose keys are among the names. -/
theorem membersAmong_of_keys {names : List String} {j : Json}
    (h : (members j).map Prod.fst ⊆ names) : MembersAmong names j := by
  intro k v hv
  apply h
  exact List.mem_map_of_mem hv

theorem mem_fields {names : List String} {needed : Nat} {j : Json} {ms : List (String × Json)}
    (h : fields names needed j = .ok ms) {k : String} {v : Json} (hv : (k, v) ∈ members j) :
    (k, v) ∈ ms := by
  cases j with
  | obj ms' =>
      obtain rfl := Except.ok.inj h
      exact hv
  | _ => cases hv

/-- The items of a sequence, missing or null included, and what they were read as. -/
theorem forall₂_of_optional {α : Type} {read : Json → Decoded α} {j : Json} {o : Option (List α)}
    (h : option (vec read) j = .ok o) :
    List.Forall₂ (fun item a => read item = .ok a) (j.asArray.getD []) (o.getD []) := by
  rcases option_ok h with ⟨rfl, rfl⟩ | ⟨as, -, rfl, hitems⟩
  · exact .nil
  · obtain ⟨items, rfl, hforall⟩ := vec_ok hitems
    exact hforall

theorem forall₂_map_right {α : Type} {read : Json → Decoded α} {R : Json → Json → Prop}
    {D : Json → Prop} {write : α → Json}
    (h : ∀ {item a}, read item = .ok a → (R item (write a) ↔ D item)) {items : List Json}
    {as : List α} (hitems : List.Forall₂ (fun item a => read item = .ok a) items as) :
    List.Forall₂ R items (as.map write) ↔ ∀ item ∈ items, D item := by
  induction hitems with
  | nil => exact iff_of_true .nil (by simp)
  | cons hitem _ ih =>
      rw [List.map_cons, List.forall₂_cons, h hitem, ih, List.forall_mem_cons]

/-- A function is sent with every member exactly when it has declared members only. -/
theorem function_carried_iff {j : Json} {f : ToolFunction} (h : ToolFunction.fromJson j = .ok f) :
    (∀ k v, (k, v) ∈ members j → Carries f.toJson k v) ↔
      MembersAmong ToolFunction.names j := by
  obtain ⟨ms, hms, h⟩ := bind_eq_ok.1 h
  obtain ⟨name, hname, h⟩ := bind_eq_ok.1 h
  obtain ⟨arguments, harguments, h⟩ := bind_eq_ok.1 h
  obtain rfl := Except.ok.inj h
  constructor
  · exact MembersAmong.of_carried (membersAmong_of_keys (List.Subset.refl _))
  · intro hamong k v hv
    have hk := hamong k v hv
    simp only [ToolFunction.names, List.mem_cons, List.not_mem_nil, or_false] at hk
    rcases hk with rfl | rfl
    · rw [string_ok ((required_ok hms hname).2 v (mem_fields hms hv))]
      exact carries_of_mem List.mem_cons_self
    · rw [string_ok ((required_ok hms harguments).2 v (mem_fields hms hv))]
      exact carries_of_mem (List.mem_cons_of_mem _ List.mem_cons_self)

/-- **A tool call is sent with every member** exactly when its members are declared. -/
theorem call_carried_iff {j : Json} {c : ToolCallMsg} (h : ToolCallMsg.fromJson j = .ok c) :
    CallCarried j c.toJson ↔ CallDeclared j := by
  obtain ⟨ms, hms, h⟩ := bind_eq_ok.1 h
  obtain ⟨id, hid, h⟩ := bind_eq_ok.1 h
  obtain ⟨type, htype, h⟩ := bind_eq_ok.1 h
  obtain ⟨function, hfunction, h⟩ := bind_eq_ok.1 h
  obtain rfl := Except.ok.inj h
  have hlevel := function_carried_iff (required_ok hms hfunction).1
  have hsent : functionOf (ToolCallMsg.toJson ⟨id, type, function⟩) = function.toJson := rfl
  constructor
  · rintro ⟨hmembers, hcarried⟩
    exact ⟨.of_carriedBut (membersAmong_of_keys (List.Subset.refl _)) (by decide) hmembers,
      hlevel.1 hcarried⟩
  · rintro ⟨hamong, hfun⟩
    refine ⟨fun k v hv hne => ?_, ?_⟩
    · have hk := hamong k v hv
      simp only [ToolCallMsg.names, List.mem_cons, List.not_mem_nil, or_false] at hk
      -- the function is compared one level down
      rcases hk with rfl | rfl | rfl
      · rw [string_ok ((required_ok hms hid).2 v (mem_fields hms hv))]
        exact carries_of_mem List.mem_cons_self
      · rw [string_ok (defaulted_ok htype v (mem_fields hms hv))]
        exact carries_of_mem (List.mem_cons_of_mem _ List.mem_cons_self)
      · exact absurd rfl hne
    · rw [hsent]
      exact hlevel.2 hfun

/-- An optional value that was read is written again. -/
theorem ofOption_of_option {α : Type} {read : Json → Decoded α} {write : α → Json} {j : Json}
    {o : Option α} (hread : ∀ {j a}, read j = .ok a → write a = j) (h : option read j = .ok o) :
    ofOption write o = j := by
  rcases option_ok h with ⟨rfl, rfl⟩ | ⟨a, -, rfl, hsome⟩
  · rfl
  · exact hread hsome

/-- An optional dynamic value that was read is written again, with its numbers perhaps changed. -/
theorem ofOption_same_iff {doubles : Doubles} {v : Json} {o : Option Json}
    (h : option (value doubles) v = .ok o) :
    (ofOption id o).Same v ↔ NumbersKept doubles v := by
  rcases option_ok h with ⟨rfl, rfl⟩ | ⟨w, -, rfl, hw⟩
  · exact iff_of_true (.refl _) trivial
  · exact value_same_iff hw

/-- **A message is sent with every member** exactly when its members are declared and the numbers of
its content are kept. -/
theorem message_carried_iff {doubles : Doubles} {j : Json} {m : ChatMessage}
    (h : ChatMessage.fromJson doubles j = .ok m) :
    MessageCarried j m.toJson ↔ MessageDeclared doubles j := by
  obtain ⟨ms, hms, h⟩ := bind_eq_ok.1 h
  obtain ⟨role, hrole, h⟩ := bind_eq_ok.1 h
  obtain ⟨content, hcontent, h⟩ := bind_eq_ok.1 h
  obtain ⟨toolCalls, hcalls, h⟩ := bind_eq_ok.1 h
  obtain ⟨name, hname, h⟩ := bind_eq_ok.1 h
  obtain ⟨toolCallId, htoolCallId, h⟩ := bind_eq_ok.1 h
  obtain rfl := Except.ok.inj h
  have hread := forall₂_of_optional (optional_ok hms hcalls).1
  have hsent : callsOf (ChatMessage.toJson ⟨role, content, toolCalls, name, toolCallId⟩) =
      (toolCalls.getD []).map ToolCallMsg.toJson := by
    cases toolCalls with
    | none => rfl
    | some cs => rfl
  have hlevel := forall₂_map_right call_carried_iff hread
  have hstring : ∀ {v : Json} {o : Option String}, option string v = .ok o →
      ofOption Json.str o = v := fun h => ofOption_of_option (fun h => (string_ok h).symm) h
  have hmem : ∀ {k v}, (k, v) ∈ members (ChatMessage.toJson ⟨role, content, toolCalls, name,
      toolCallId⟩) ↔ (k = "role" ∧ v = .str role) ∨ (k = "content" ∧ v = ofOption id content) ∨
        (k = "tool_calls" ∧ v = ofOption (ofList ToolCallMsg.toJson) toolCalls) ∨
        (k = "name" ∧ v = ofOption Json.str name) ∨
        (k = "tool_call_id" ∧ v = ofOption Json.str toolCallId) := by
    intro k v
    simp only [ChatMessage.toJson, members, List.mem_cons, Prod.mk.injEq, List.not_mem_nil,
      or_false]
  constructor
  · rintro ⟨hmembers, hcarried⟩
    rw [hsent] at hcarried
    refine ⟨?_, fun v hv => ?_, hlevel.1 hcarried⟩
    · exact .of_carriedBut (membersAmong_of_keys (List.Subset.refl _)) (by decide) hmembers
    · obtain ⟨w, hw, hsame⟩ := hmembers "content" v hv (by decide)
      -- the one member of that name is the content that was read
      obtain rfl : w = ofOption id content := by simpa using hmem.1 hw
      exact (ofOption_same_iff ((optional_ok hms hcontent).2 v (mem_fields hms hv))).1 hsame
  · rintro ⟨hamong, hnumbers, hcallsDeclared⟩
    refine ⟨fun k v hv hne => ?_, ?_⟩
    · have hk := hamong k v hv
      have hin := mem_fields hms hv
      simp only [ChatMessage.names, List.mem_cons, List.not_mem_nil, or_false] at hk
      -- of the five fields the calls are compared one level down
      rcases hk with rfl | rfl | rfl | rfl | rfl
      · exact carries_of_mem (hmem.2 (Or.inl ⟨rfl, string_ok ((required_ok hms hrole).2 v hin)⟩))
      · exact ⟨_, hmem.2 (Or.inr (Or.inl ⟨rfl, rfl⟩)),
          (ofOption_same_iff ((optional_ok hms hcontent).2 v hin)).2 (hnumbers v hv)⟩
      · exact absurd rfl hne
      · have hwritten := hstring ((optional_ok hms hname).2 v hin)
        exact carries_of_mem (hmem.2 (Or.inr (Or.inr (Or.inr (Or.inl ⟨rfl, hwritten.symm⟩)))))
      · have hwritten := hstring ((optional_ok hms htoolCallId).2 v hin)
        exact carries_of_mem (hmem.2 (Or.inr (Or.inr (Or.inr (Or.inr ⟨rfl, hwritten.symm⟩)))))
    · rw [hsent]
      exact hlevel.2 hcallsDeclared

/-- Tools that were read are written again, with their numbers perhaps changed. -/
theorem tools_same_iff {doubles : Doubles} {v : Json} {ts : List Json}
    (h : vec (value doubles) v = .ok ts) : (Json.arr ts).Same v ↔ NumbersKept doubles v := by
  obtain ⟨items, rfl, hitems⟩ := vec_ok h
  exact items_same_iff hitems

/-- **A body is sent with every member** exactly when all of its messages are, its members are
declared, and none is a null that is skipped. -/
theorem body_carried_iff {doubles : Doubles} {j : Json} {body : ChatCompletionRequest}
    (h : ChatCompletionRequest.fromJson doubles j = .ok body) :
    BodyCarried j body.toJson ↔ BodyDeclared doubles j := by
  obtain ⟨ms, hms, h⟩ := bind_eq_ok.1 h
  obtain ⟨model, hmodel, h⟩ := bind_eq_ok.1 h
  obtain ⟨messages, hmessages, h⟩ := bind_eq_ok.1 h
  obtain ⟨stream, hstream, h⟩ := bind_eq_ok.1 h
  obtain ⟨tools, htools, h⟩ := bind_eq_ok.1 h
  obtain rfl := Except.ok.inj h
  obtain ⟨items, hitems, hread⟩ := vec_ok (required_ok hms hmessages).1
  have hlist : messagesOf j = items := by
    rw [messagesOf, hitems]
    rfl
  have hsent : messagesOf (ChatCompletionRequest.toJson ⟨model, messages, stream, tools⟩) =
      messages.map ChatMessage.toJson := rfl
  have hlevel := forall₂_map_right message_carried_iff hread
  have hmem : ∀ {k v}, (k, v) ∈ members (ChatCompletionRequest.toJson ⟨model, messages, stream,
      tools⟩) ↔ (k = "model" ∧ v = .str model) ∨
        (k = "messages" ∧ v = ofList ChatMessage.toJson messages) ∨
        (k = "stream" ∧ ∃ b, stream = some b ∧ v = .bool b) ∨
        (k = "tools" ∧ ∃ ts, tools = some ts ∧ v = .arr ts) := by
    intro k v
    simp only [ChatCompletionRequest.toJson, members, List.mem_append, mem_skipNone, List.mem_cons,
      Prod.mk.injEq, List.not_mem_nil, or_false, or_assoc]
  constructor
  · rintro ⟨hmembers, hcarried⟩
    rw [hsent, hlist] at hcarried
    refine ⟨?_, fun hv => ?_, fun hv => ?_, fun v hv => ?_, ?_⟩
    · have hwritten : MembersAmong ChatCompletionRequest.names
          (ChatCompletionRequest.toJson ⟨model, messages, stream, tools⟩) := by
        intro k v hw
        rcases hmem.1 hw with ⟨rfl, -⟩ | ⟨rfl, -⟩ | ⟨rfl, -⟩ | ⟨rfl, -⟩
        · decide
        · decide
        · decide
        · decide
      exact hwritten.of_carriedBut (by decide) hmembers
    · obtain ⟨w, hw, hsame⟩ := hmembers _ _ hv (by decide)
      obtain ⟨b, -, rfl⟩ : ∃ b, stream = some b ∧ w = .bool b := by simpa using hmem.1 hw
      cases hsame
    · obtain ⟨w, hw, hsame⟩ := hmembers _ _ hv (by decide)
      obtain ⟨ts, -, rfl⟩ : ∃ ts, tools = some ts ∧ w = .arr ts := by simpa using hmem.1 hw
      cases hsame
    · obtain ⟨w, hw, hsame⟩ := hmembers _ _ hv (by decide)
      obtain ⟨ts, rfl, rfl⟩ : ∃ ts, tools = some ts ∧ w = .arr ts := by simpa using hmem.1 hw
      rcases option_ok ((optional_ok hms htools).2 v (mem_fields hms hv)) with
        ⟨-, hnone⟩ | ⟨ts', -, hts, hv'⟩
      · cases hnone
      · obtain rfl := Option.some.inj hts
        exact (tools_same_iff hv').1 hsame
    · rw [hlist]
      exact hlevel.1 hcarried
  · rintro ⟨hamong, hnoStream, hnoTools, hnumbers, hmessagesDeclared⟩
    rw [hlist] at hmessagesDeclared
    refine ⟨fun k v hv hne => ?_, ?_⟩
    · have hk := hamong k v hv
      have hin := mem_fields hms hv
      simp only [ChatCompletionRequest.names, List.mem_cons, List.not_mem_nil, or_false] at hk
      rcases hk with rfl | rfl | rfl | rfl
      · exact carries_of_mem (hmem.2 (Or.inl ⟨rfl, string_ok ((required_ok hms hmodel).2 v hin)⟩))
      · exact absurd rfl hne
      · rcases option_ok ((optional_ok hms hstream).2 v hin) with ⟨rfl, -⟩ | ⟨b, -, hb, hv'⟩
        · exact absurd hv hnoStream
        · exact carries_of_mem (hmem.2 (Or.inr (Or.inr (Or.inl ⟨rfl, b, hb, boolean_ok hv'⟩))))
      · rcases option_ok ((optional_ok hms htools).2 v hin) with ⟨rfl, -⟩ | ⟨ts, -, hts, hv'⟩
        · exact absurd hv hnoTools
        · exact ⟨_, hmem.2 (Or.inr (Or.inr (Or.inr ⟨rfl, ts, hts, rfl⟩))),
            (tools_same_iff hv').2 (hnumbers v hv)⟩
    · rw [hsent, hlist]
      exact hlevel.2 hmessagesDeclared

/-! ## The handler -/

/-- What is sent upstream is the decoded body. -/
def Event.Sends (body : ChatCompletionRequest) (e : Event) : Prop :=
  ∀ url sent key, e = .sentUpstream url sent key → sent = body

/-- **A chat sends the body as it was decoded, and nothing else.** -/
theorem chatCompletions_sends {E : Engine} (env : ProxyEnv E) (st : AppState) (headers : HeaderMap)
    (body : ChatCompletionRequest) :
    (chatCompletions env st headers body).Emits (Event.Sends body) := by
  have hcheck : ∀ req, (st.engine.check env req).Emits (Event.Sends body) := by
    intro req w e he
    rcases emits_check env st.engine req w e he with ⟨d, rfl⟩ | ⟨d, ms, key, rfl⟩
    · exact nofun
    · exact nofun
  have hresolve : (resolve env st headers).Emits (Event.Sends body) := by
    intro w e he
    cases he
  -- only one step sends, and it sends the body it was given
  have hsend : (sendUpstream env st body).Emits (Event.Sends body) := by
    intro w e he url sent key hsent
    rw [List.mem_singleton.1 he] at hsent
    cases hsent
    rfl
  have hforward : ∀ principal, (forward env st principal body).Emits (Event.Sends body) := by
    intro principal
    have hcount : ∀ f, (Handler.count f).Emits (Event.Sends body) := fun f => Eff.emits_modify _
    have hlift : ∀ r : Except (Halt ProxyError) Json,
        (Eff.lift r : Handler Json).Emits (Event.Sends body) := Eff.emits_lift
    unfold forward
    apply (hcount _).bind
    intro _
    apply hsend.bind
    intro reply
    split
    · exact Eff.emits_pure _
    · apply (hlift _).bind
      intro json
      apply (emits_filterReply hcheck (fun call => nofun) principal json).bind
      exact fun _ => Eff.emits_pure _
  unfold chatCompletions
  apply hresolve.bind
  intro principal
  exact (emits_checkPrompt hcheck principal _).bind fun _ => hforward principal

/-- **Transparency.** The upstream receives every member of the client's body, of each message and of
each historical tool call, with the same value, exactly when all of them are declared ones, no member
that is skipped is null, and every number in the contents and the tools is an integer of 64 bits or a
double that prints as the same number. -/
theorem transparent_iff {E : Engine} (doubles : Doubles) (env : ProxyEnv E) (st : AppState)
    (headers : HeaderMap) (w : World) (j : Json) (body : ChatCompletionRequest)
    (hread : ChatCompletionRequest.fromJson doubles j = .ok body) (url : String)
    (sent : ChatCompletionRequest) (key : Option String)
    (hsent : .sentUpstream url sent key ∈ (chatCompletions env st headers body w).events) :
    BodyCarried j sent.toJson ↔ BodyDeclared doubles j := by
  obtain rfl := chatCompletions_sends env st headers body w _ hsent url sent key rfl
  exact body_carried_iff hread

namespace GeneralChat

/-- A system message as the client writes it. -/
def greeting : Json := .obj [("role", .str "system"), ("content", .str "hi")]

/-- A tool with a bound on its argument. -/
def boundedTool : Json := .obj [("name", .str "pick"), ("maximum", .num "10")]

/-- A body with that message, the tool and further members. -/
def clientBody (rest : List (String × Json)) : Json :=
  .obj ([("model", .str "gpt"), ("messages", .arr [greeting]), ("tools", .arr [boundedTool])] ++
    rest)

/-- The body as it is decoded. -/
def decodedBody : ChatCompletionRequest :=
  { chat [⟨"system", some (.str "hi"), none, none, none⟩] with tools := some [boundedTool] }

/-- The doubles of these bodies print as they are written. -/
def writtenDoubles : Doubles := some

theorem sends_decodedBody : ∃ url key, .sentUpstream url decodedBody key ∈
    (chatCompletions (env emptyReply) state headers decodedBody world).events := by
  obtain ⟨url, key, rest, hevents⟩ := @sends_unchecked _ (env emptyReply) state headers decodedBody
    world bob (resolve_bob emptyReply) (by decide)
  exact ⟨url, key, by rw [hevents]; exact List.mem_cons_self⟩

end GeneralChat

/-- The sampling temperature is not sent. -/
theorem temperature_dropped :
    ChatCompletionRequest.fromJson GeneralChat.writtenDoubles
        (GeneralChat.clientBody [("temperature", .num "0.2")]) = .ok GeneralChat.decodedBody ∧
      ∃ url key, .sentUpstream url GeneralChat.decodedBody key ∈
          (chatCompletions (GeneralChat.env GeneralChat.emptyReply) GeneralChat.state
            GeneralChat.headers GeneralChat.decodedBody GeneralChat.world).events ∧
        ¬BodyCarried (GeneralChat.clientBody [("temperature", .num "0.2")])
          GeneralChat.decodedBody.toJson := by
  obtain ⟨url, key, hsent⟩ := GeneralChat.sends_decodedBody
  refine ⟨rfl, url, key, hsent, fun hcarried => ?_⟩
  obtain ⟨w, htemperature, -⟩ := hcarried.members "temperature" (.num "0.2") (by
    simp [GeneralChat.clientBody, members]) (by decide)
  simp [GeneralChat.decodedBody, GeneralChat.chat, ChatCompletionRequest.toJson, members,
    skipNone] at htemperature

/-- A body with a message and a tool is sent as it is. -/
theorem greeting_transparent : ∃ url key, .sentUpstream url GeneralChat.decodedBody key ∈
      (chatCompletions (GeneralChat.env GeneralChat.emptyReply) GeneralChat.state
        GeneralChat.headers GeneralChat.decodedBody GeneralChat.world).events ∧
    BodyCarried (GeneralChat.clientBody []) GeneralChat.decodedBody.toJson := by
  obtain ⟨url, key, hsent⟩ := GeneralChat.sends_decodedBody
  refine ⟨url, key, hsent, ?_⟩
  rw [transparent_iff GeneralChat.writtenDoubles _ _ _ _ _ _ rfl url _ key hsent]
  have hgreeting : MessageDeclared GeneralChat.writtenDoubles GeneralChat.greeting := by
    refine ⟨membersAmong_of_keys (by decide), fun v hv => ?_, fun c hc => nomatch hc⟩
    · obtain rfl : v = .str "hi" := by simpa [GeneralChat.greeting, members] using hv
      exact trivial
  have htool : NumbersKept GeneralChat.writtenDoubles (.arr [GeneralChat.boundedTool]) :=
    ⟨⟨Or.inr trivial, Or.inr (Or.inl rfl), trivial⟩, trivial⟩
  refine ⟨membersAmong_of_keys (by decide), ?_, ?_, fun v hv => ?_, ?_⟩
  · simp [GeneralChat.clientBody, members]
  · simp [GeneralChat.clientBody, members]
  · obtain rfl : v = .arr [GeneralChat.boundedTool] := by
      simpa [GeneralChat.clientBody, members] using hv
    exact htool
  · intro m hm
    rw [show messagesOf (GeneralChat.clientBody []) = [GeneralChat.greeting] from rfl,
      List.mem_singleton] at hm
    rw [hm]
    exact hgreeting

end Paac
